import Parley.Proofs.Proxy.Closing
import Parley.Proofs.World.Step

namespace Parley

namespace Proxy

variable {p : Proxy} {key : RegisterKey}

theorem Sound.registered?_eq_none (sound : p.Sound) (nothing : p.log key = []) :
    p.register.registered? key = none := by
  cases known : p.register.registered? key with
  | none => rfl
  | some n =>
    rw [log_of_registered? known] at nothing
    have empty := (List.append_eq_nil_iff.1 nothing).1
    exact absurd (List.map_eq_nil_iff.1 empty) (sound.standing key n known).2

theorem Sound.mem_keys_of_log (sound : p.Sound) (something : p.log key ≠ []) :
    key ∈ p.register.keys := by
  cases known : p.register.registered? key with
  | none => simp [log, known] at something
  | some n => exact sound.register.mem_keys known

end Proxy

namespace Negotiation

variable {n n' : Negotiation} {c c' : Message}

theorem closing_eq_of_messages_prefix (closing : n.closing = [c]) (closing' : n'.closing = [c'])
    (closes : ∀ o, c ≠ .offer o) (longer : n.messages <+: n'.messages) :
    n.offers = n'.offers ∧ c = c' := by
  obtain ⟨rest, whole⟩ := longer
  simp only [messages, closing, closing'] at whole
  obtain rfl | ⟨init, last, rfl⟩ := List.eq_nil_or_concat rest
  · rw [List.append_nil] at whole
    obtain ⟨offers_eq, closing_eq⟩ := List.append_inj' whole rfl
    exact ⟨List.map_injective_iff.2 (fun _ _ => Message.offer.inj) offers_eq,
      List.singleton_inj.1 closing_eq⟩
  · -- else the closing message of the one is an offer of the other
    rw [List.concat_eq_append, ← List.append_assoc] at whole
    have offers_eq := (List.append_inj' whole rfl).1
    have mem : c ∈ n'.offers.map Message.offer := by
      rw [← offers_eq]
      simp
    obtain ⟨o, -, same⟩ := List.mem_map.1 mem
    exact absurd same.symm (closes o)

theorem closing_eq_of_prefix (either : n.messages <+: n'.messages ∨ n'.messages <+: n.messages)
    (closing : n.closing = [c]) (closing' : n'.closing = [c']) (closes : ∀ o, c ≠ .offer o)
    (closes' : ∀ o, c' ≠ .offer o) : n.offers = n'.offers ∧ c = c' := by
  obtain longer | longer := either
  · exact closing_eq_of_messages_prefix closing closing' closes longer
  · obtain ⟨offers_eq, same⟩ := closing_eq_of_messages_prefix closing' closing closes' longer
    exact ⟨offers_eq.symm, same.symm⟩

end Negotiation

namespace World

variable {w w' : World} {p q p' q' : Party} {id : NegotiationId} {m : Message}

def between (a b : Party) (id : NegotiationId) (ms : List Message) : List Message :=
  ms.filter fun m => m.Goes a b id

/-- What a step on the left does to one negotiation. -/
inductive Moves (p q : Party) (id : NegotiationId) (w w' : World) : Prop
  | rests (log_eq : w'.left.log (key p q id) = w.left.log (key p q id))
    (right : between p q id w'.toRight = between p q id w.toRight)
    (left : (between q p id w'.toLeft).Sublist (between q p id w.toLeft))
  | sends (m : Message) (goes : m.Goes p q id)
    (log_eq : w'.left.log (key p q id) = w.left.log (key p q id) ++ [m])
    (right : between p q id w'.toRight = between p q id w.toRight ++ [m])
    (left : between q p id w'.toLeft = between q p id w.toLeft)
    (addressed : ∀ last, (w.left.log (key p q id)).getLast? = some last →
      last.receiver ∈ p.fingerprints)
    (opens : w.left.log (key p q id) = [] → key p q id ∉ w.right.register.keys)
  | takes (m : Message) (before after : List Message)
    (log_eq : w'.left.log (key p q id) = w.left.log (key p q id) ++ [m])
    (right : between p q id w'.toRight = between p q id w.toRight)
    (coming : between q p id w.toLeft = before ++ m :: after)
    (left : between q p id w'.toLeft = before ++ after)

theorem between_sublist {before after : List Message} :
    (between q p id (before ++ after)).Sublist (between q p id (before ++ m :: after)) := by
  refine List.Sublist.filter _ ?_
  exact (List.sublist_cons_self m after).append_left before

theorem Left.moves (step : Left (.of p.name q.name) w w') (serves : w.left.Serves p q)
    (id : NegotiationId) : Moves p q id w w' ∧ w'.left.Serves p q ∧ w'.right = w.right := by
  cases step with
  | request relay order unused =>
    have sends := Proxy.carryOut_sends serves.sound relay order
    refine ⟨?_, serves.of_basis sends.basis sends.sound, rfl⟩
    obtain ⟨rests, sent⟩ | ⟨n, m, commits, sent⟩ := sends
    · refine .rests (rests.log_eq _) ?_ (.refl _)
      simp only [World.request, sent, List.map_nil, List.append_nil]
    · by_cases here : n.key = key p q id
      · have goes : m.Goes p q id := (serves.sends_iff commits).1 here
        refine .sends m goes ?_ ?_ rfl ?_ ?_
        · rw [← here]
          exact commits.log_key
        · simp [World.request, sent, between, goes]
        · intro last last_eq
          rw [← here] at last_eq
          exact serves.addressed commits here last_eq
        · intro nothing
          have missing := serves.sound.registered?_eq_none nothing
          rw [← here] at missing
          have opened := commits.opens missing
          rw [here] at opened
          exact unused id opened
      · have other : ¬ m.Goes p q id := fun goes => here ((serves.sends_iff commits).2 goes)
        refine .rests (commits.log_of_ne (Ne.symm here)) ?_ (.refl _)
        simp [World.request, sent, between, other]
  | deliver relay now before m after coming =>
    obtain ⟨-, rests | ⟨n, commits, -⟩⟩ := Proxy.receive_effect serves.sound relay now m
    · refine ⟨.rests (rests.log_eq _) rfl ?_, serves.of_basis rests.basis rests.sound, rfl⟩
      rw [coming]
      exact between_sublist
    · refine ⟨?_, serves.of_basis commits.basis commits.sound, rfl⟩
      by_cases here : n.key = key p q id
      · have goes : m.Goes q p id := (serves.takes_iff commits).1 here
        refine .takes m (between q p id before) (between q p id after) ?_ rfl ?_ ?_
        · rw [← here]
          exact commits.log_key
        · rw [coming]
          simp [between, goes]
        · simp [World.deliver, between]
      · refine .rests (commits.log_of_ne (Ne.symm here)) rfl ?_
        rw [coming]
        exact between_sublist
  | lose before m after coming =>
    refine ⟨.rests rfl rfl ?_, serves, rfl⟩
    rw [coming]
    exact between_sublist

/-- That the two logs of a negotiation are the same and nothing is on its way. -/
structure Level (p q : Party) (id : NegotiationId) (w : World) : Prop where
  log_eq : w.left.log (key p q id) = w.right.log (key p q id)
  right : between p q id w.toRight = []
  left : between q p id w.toLeft = []

/-- That the log on the left is one message ahead, which is on its way or lost. -/
structure Ahead (p q : Party) (id : NegotiationId) (m : Message) (w : World) : Prop where
  log_eq : w.left.log (key p q id) = w.right.log (key p q id) ++ [m]
  goes : m.Goes p q id
  right : (between p q id w.toRight).Sublist [m]
  left : between q p id w.toLeft = []
  addressed : ∀ last, (w.right.log (key p q id)).getLast? = some last →
    last.receiver ∈ p.fingerprints

inductive Near (p q : Party) (id : NegotiationId) (w : World) : Prop
  | level (level : Level p q id w)
  | left (m : Message) (ahead : Ahead p q id m w)
  | right (m : Message) (ahead : Ahead q p id m w.swap)

theorem Level.swap (level : Level p q id w) : Level q p id w.swap where
  log_eq := by
    rw [key_comm]
    exact level.log_eq.symm
  right := level.left
  left := level.right

theorem Near.swap (near : Near p q id w) : Near q p id w.swap := by
  cases near with
  | level level => exact .level level.swap
  | left m ahead => exact .right m ahead
  | right m ahead => exact .left m ahead

theorem near_of_level (moves : Moves p q id w w') (fixed : w'.right = w.right)
    (level : Level p q id w) : Near p q id w' := by
  cases moves with
  | rests log_eq right left =>
    refine .level ⟨?_, right.trans level.right, ?_⟩
    · rw [log_eq, fixed]
      exact level.log_eq
    · rw [level.left] at left
      exact List.sublist_nil.1 left
  | sends m goes log_eq right left addressed opens =>
    refine .left m ⟨?_, goes, ?_, left.trans level.left, ?_⟩
    · rw [log_eq, fixed, level.log_eq]
    · rw [right, level.right]
      exact .refl _
    · rw [fixed, ← level.log_eq]
      exact addressed
  | takes m before after log_eq right coming left =>
    rw [level.left] at coming
    exact absurd coming (by simp)

theorem near_of_left (moves : Moves p q id w w') (fixed : w'.right = w.right)
    (serves : w.left.Serves p q) (ahead : Ahead p q id m w) : Near p q id w' := by
  cases moves with
  | rests log_eq right left =>
    refine .left m ⟨?_, ahead.goes, right ▸ ahead.right, ?_, ?_⟩
    · rw [log_eq, fixed]
      exact ahead.log_eq
    · rw [ahead.left] at left
      exact List.sublist_nil.1 left
    · rw [fixed]
      exact ahead.addressed
  | sends m' goes log_eq right left addressed opens =>
    have own : m.receiver ∈ p.fingerprints := by
      refine addressed m ?_
      rw [ahead.log_eq]
      exact List.getLast?_concat
    exact absurd ahead.goes.2.2 (serves.apart own)
  | takes m' before after log_eq right coming left =>
    rw [ahead.left] at coming
    exact absurd coming (by simp)

theorem near_of_right (moves : Moves p q id w w') (fixed : w'.right = w.right)
    (serves : w.left.Serves p q) (sound : w.right.Sound) (ahead : Ahead q p id m w.swap) :
    Near p q id w' := by
  have log_eq' : w.right.log (key p q id) = w.left.log (key p q id) ++ [m] := by
    rw [key_comm]
    exact ahead.log_eq
  cases moves with
  | rests log_eq right left =>
    refine .right m ⟨?_, ahead.goes, left.trans ahead.right, right.trans ahead.left, ?_⟩
    · change w'.right.log (key q p id) = w'.left.log (key q p id) ++ [m]
      rw [key_comm, log_eq, fixed]
      exact log_eq'
    · change ∀ last, (w'.left.log (key q p id)).getLast? = some last → _
      rw [key_comm, log_eq, key_comm]
      exact ahead.addressed
  | sends m' goes log_eq right left addressed opens =>
    cases last_eq : (w.left.log (key p q id)).getLast? with
    | none =>
      have known : key p q id ∈ w.right.register.keys := by
        refine sound.mem_keys_of_log ?_
        rw [log_eq']
        simp
      exact absurd known (opens (List.getLast?_eq_none_iff.1 last_eq))
    | some last =>
      have own : last.receiver ∈ p.fingerprints := addressed last last_eq
      rw [key_comm] at last_eq
      exact absurd (ahead.addressed last last_eq) (serves.apart own)
  | takes m' before after log_eq right coming left =>
    have one : (between q p id w.toLeft).Sublist [m] := ahead.right
    rw [coming] at one
    have short := one.length_le
    simp only [List.length_append, List.length_cons, List.length_nil] at short
    obtain rfl : before = [] := List.eq_nil_of_length_eq_zero (by omega)
    obtain rfl : after = [] := List.eq_nil_of_length_eq_zero (by omega)
    obtain rfl : m' = m := List.mem_singleton.1 (List.singleton_sublist.1 one)
    refine .level ⟨?_, right.trans ahead.left, left⟩
    rw [log_eq, fixed, log_eq']

structure Sound (p q : Party) (w : World) : Prop where
  left : w.left.Serves p q
  right : w.right.Serves q p
  near : ∀ id, Near p q id w

theorem Sound.swap (sound : Sound p q w) : Sound q p w.swap where
  left := sound.right
  right := sound.left
  near id := (sound.near id).swap

theorem Sound.left_step (sound : Sound p q w) (step : Left (.of p.name q.name) w w') :
    Sound p q w' := by
  obtain ⟨-, serves, fixed⟩ := step.moves sound.left 0
  refine ⟨serves, fixed ▸ sound.right, fun id => ?_⟩
  obtain ⟨moves, -, -⟩ := step.moves sound.left id
  cases sound.near id with
  | level level => exact near_of_level moves fixed level
  | left m ahead => exact near_of_left moves fixed sound.left ahead
  | right m ahead => exact near_of_right moves fixed sound.left sound.right.sound ahead

theorem Sound.step (sound : Sound p q w) (step : Step (.of p.name q.name) w w') :
    Sound p q w' := by
  obtain step | step := step
  · exact sound.left_step step
  · rw [PartyPair.of_comm] at step
    exact (sound.swap.left_step step).swap

theorem Idle.sound {parties : List Party} {templates : Templates} {s : Settings} {r : Proxy}
    (idle : Idle parties templates s r) : r.Sound ∧ (∀ key, r.log key = []) ∧
      r.parties.directory.entries = parties ∧ ∀ a ∈ parties, a.Built s := by
  obtain ⟨ps, ids, built, made⟩ := idle
  refine ⟨Proxy.sound_start (Parties.sound_ofList built made), fun key => ?_,
    (Parties.ofList_eq_ok made).1, built⟩
  rw [Proxy.log, Proxy.start, Register.registered?_empty]
  rfl

theorem Reached.sound (reached : Reached p q p' q' w) : Sound p q w := by
  induction reached with
  | start parties parties' templates s left right leftIdle rightIdle mem mem' owned counter
      certificates =>
    obtain ⟨left_sound, left_log, left_eq, left_built⟩ := leftIdle.sound
    obtain ⟨right_sound, right_log, right_eq, right_built⟩ := rightIdle.sound
    obtain ⟨p_name, p_eq, -⟩ :=
      (right_built p' mem'.1).same (left_built p mem.1) certificates.1
    obtain ⟨q_name, q_eq, -⟩ :=
      (right_built q' mem'.2).same (left_built q mem.2) certificates.2
    refine ⟨⟨left_sound, ?_, ?_⟩, ⟨right_sound, ?_, ?_⟩, fun id => .level ⟨?_, rfl, rfl⟩⟩
    · exact ⟨p, left_eq ▸ mem.1, owned.1, rfl, rfl⟩
    · exact ⟨q, left_eq ▸ mem.2, counter.1, rfl, rfl⟩
    · exact ⟨q', right_eq ▸ mem'.2, owned.2, q_name, q_eq⟩
    · exact ⟨p', right_eq ▸ mem'.1, counter.2, p_name, p_eq⟩
    · rw [left_log, right_log]
  | step w w' reached step ih => exact ih.step step

theorem Near.log_cases (near : Near p q id w) :
    w.left.log (key p q id) = w.right.log (key p q id) ∨
      (∃ m, w.left.log (key p q id) = w.right.log (key p q id) ++ [m]) ∨
        ∃ m, w.right.log (key p q id) = w.left.log (key p q id) ++ [m] := by
  cases near with
  | level level => exact .inl level.log_eq
  | left m ahead => exact .inr (.inl ⟨m, ahead.log_eq⟩)
  | right m ahead =>
    rw [key_comm]
    exact .inr (.inr ⟨m, ahead.log_eq⟩)

theorem Near.nested (near : Near p q id w) :
    w.left.log (key p q id) <+: w.right.log (key p q id) ∨
      w.right.log (key p q id) <+: w.left.log (key p q id) := by
  obtain same | ⟨m, longer⟩ | ⟨m, longer⟩ := near.log_cases
  · exact .inl (same ▸ List.prefix_rfl)
  · exact .inr (longer ▸ List.prefix_append _ _)
  · exact .inl (longer ▸ List.prefix_append _ _)

/-- Whatever happens, of the two logs of a negotiation one goes on where the other ends, by at most
one message. So they do not end differently. -/
theorem logs_agree (reached : Reached p q p' q' w) (id : NegotiationId) :
    (w.left.log (key p q id) <+: w.right.log (key p q id) ∨
      w.right.log (key p q id) <+: w.left.log (key p q id)) ∧
    (w.left.log (key p q id)).length ≤ (w.right.log (key p q id)).length + 1 ∧
    (w.right.log (key p q id)).length ≤ (w.left.log (key p q id)).length + 1 ∧
    ∀ n n', w.left.register.registered? (key p q id) = some n →
      w.right.register.registered? (key p q id) = some n' →
        ¬ (n.status = .accepted ∧ n'.status = .rejected) ∧
        ¬ (n.status = .rejected ∧ n'.status = .accepted) ∧
        (n.status = .accepted → n'.status = .accepted →
          n.offers = n'.offers ∧ n.acceptance = n'.acceptance) := by
  have sound := reached.sound
  have near := sound.near id
  refine ⟨near.nested, ?_, ?_, fun n n' known known' => ?_⟩
  · obtain same | ⟨m, longer⟩ | ⟨m, longer⟩ := near.log_cases
    · simp [same]
    · simp [longer]
    · simp [longer]
      omega
  · obtain same | ⟨m, longer⟩ | ⟨m, longer⟩ := near.log_cases
    · simp [same]
    · simp [longer]
      omega
    · simp [longer]
  · have either := near.nested
    rw [Proxy.log_of_registered? known, Proxy.log_of_registered? known'] at either
    have recorded := (sound.left.sound.register.holds n (Register.mem_of_registered? known)).recorded
    have recorded' := (sound.right.sound.register.holds n' (Register.mem_of_registered? known')).recorded
    refine ⟨?_, ?_, ?_⟩
    · rintro ⟨accepted, rejected⟩
      obtain ⟨x, closing⟩ := recorded.accepted accepted
      obtain ⟨y, closing'⟩ := recorded'.rejected rejected
      cases (Negotiation.closing_eq_of_prefix either closing closing' (by simp) (by simp)).2
    · rintro ⟨rejected, accepted⟩
      obtain ⟨x, closing⟩ := recorded.rejected rejected
      obtain ⟨y, closing'⟩ := recorded'.accepted accepted
      cases (Negotiation.closing_eq_of_prefix either closing closing' (by simp) (by simp)).2
    · intro accepted accepted'
      obtain ⟨x, closing⟩ := recorded.accepted accepted
      obtain ⟨y, closing'⟩ := recorded'.accepted accepted'
      obtain ⟨offers_eq, same⟩ :=
        Negotiation.closing_eq_of_prefix either closing closing' (by simp) (by simp)
      cases same
      rw [(Negotiation.closing_eq_acceptance_iff.1 closing).1,
        (Negotiation.closing_eq_acceptance_iff.1 closing').1]
      exact ⟨offers_eq, rfl⟩

end World

namespace Sample

open Negotiation

theorem sellerProxy_idle (id : NegotiationId) :
    World.Idle [owned "Seller" sellerSeed, counter "Buyer" buyerSeed] templates settings
      (sellerProxy id) :=
  .start sellerParties _ sellerParties_built sellerParties_ofList

theorem proxy_idle : World.Idle [owned "Buyer" buyerSeed, counter "Seller" sellerSeed]
    templates settings proxy :=
  .start parties _ parties_built parties_ofList

def idle (id : NegotiationId) : World :=
  ⟨proxy, sellerProxy id, [], []⟩

def offering (id : NegotiationId) : World :=
  ((idle id).swap.request relay (.offer now now opening)).swap

def exchange (id : NegotiationId) : World :=
  (offering id).deliver relay now (offer id).message ([] ++ [])

theorem offering_left (id : NegotiationId) : (offering id).left = proxy := by
  unfold offering
  rw [World.left_swap, World.right_request]
  rfl

theorem offering_toLeft (id : NegotiationId) :
    (offering id).toLeft = [] ++ (offer id).message :: [] := by
  have seller : (idle id).swap.left = sellerProxy id := rfl
  have nothing : (idle id).swap.toRight = [] := rfl
  unfold offering
  rw [World.toLeft_swap, World.toRight_request, seller, nothing, Proxy.sent_carryOut_offer,
    opening_sent]
  rfl

theorem idle_reached (id : NegotiationId) :
    World.Reached (owned "Buyer" buyerSeed) (counter "Seller" sellerSeed)
      (counter "Buyer" buyerSeed) (owned "Seller" sellerSeed) (idle id) :=
  .start _ _ _ _ _ _ proxy_idle (sellerProxy_idle id) (by simp) (by simp) ⟨rfl, rfl⟩ ⟨rfl, rfl⟩
    ⟨rfl, rfl⟩

theorem offering_reached (id : NegotiationId) :
    World.Reached (owned "Buyer" buyerSeed) (counter "Seller" sellerSeed)
      (counter "Buyer" buyerSeed) (owned "Seller" sellerSeed) (offering id) := by
  refine .step (idle id) (offering id) (idle_reached id) (.inr ?_)
  unfold offering
  rw [World.swap_swap]
  refine .request relay (.offer now now opening) fun drawn _ => ?_
  have unused : (idle id).swap.right.register.keys = [] := rfl
  rw [unused]
  exact List.not_mem_nil

theorem exchange_reached (id : NegotiationId) :
    World.Reached (owned "Buyer" buyerSeed) (counter "Seller" sellerSeed)
      (counter "Buyer" buyerSeed) (owned "Seller" sellerSeed) (exchange id) := by
  refine .step (offering id) (exchange id) (offering_reached id) (.inl ?_)
  unfold exchange
  exact .deliver relay now [] (offer id).message [] (offering_toLeft id)

theorem exchange_left (id : NegotiationId) : (exchange id).left = offered id := by
  rw [exchange, World.left_deliver, offering_left, receive_offer]

theorem exchange_log (id : NegotiationId) :
    (exchange id).left.log (World.key (owned "Buyer" buyerSeed) (counter "Seller" sellerSeed) id) =
      [(offer id).message] := by
  have same : World.key (owned "Buyer" buyerSeed) (counter "Seller" sellerSeed) id =
      (buying id).key := rfl
  have nothing : (buying id).messages = [] := rfl
  rw [exchange_left, same, (offer_commits id).log_key, (offer_commits id).log_before, nothing,
    List.nil_append]

theorem exchange_agrees :
    let log := [(offer 7).message]
    let log' := (exchange 7).right.log
      (World.key (owned "Buyer" buyerSeed) (counter "Seller" sellerSeed) 7)
    (log <+: log' ∨ log' <+: log) ∧ log'.length ≤ 2 := by
  obtain ⟨nested, -, longer, -⟩ := World.logs_agree (exchange_reached 7) 7
  rw [exchange_log] at nested longer
  exact ⟨nested, longer⟩

end Sample

end Parley
