import Parley.Proofs.Proxy.Log

/-!
# Two proxies

Two parties negotiate, each at a proxy of its own. What one proxy sends is on its way to the other
until it is delivered, once, or lost. Messages may overtake each other, and the clocks need not
agree.
-/

namespace Parley

/-- Two proxies, and what is on its way from each to the other. -/
structure World where
  left : Proxy
  right : Proxy
  toRight : List Message
  toLeft : List Message

namespace World

variable {w w' : World} {p q p' q' : Party} {id : NegotiationId} {pair : PartyPair}

def swap (w : World) : World :=
  ⟨w.right, w.left, w.toLeft, w.toRight⟩

theorem swap_swap : w.swap.swap = w :=
  rfl

def request (w : World) (relay : Relay) (order : Order) : World :=
  let outcome := w.left.carryOut relay order
  { w with left := outcome.proxy, toRight := w.toRight ++ outcome.sent.map (·.message) }

def deliver (w : World) (relay : Relay) (now : Instant) (m : Message) (others : List Message) :
    World :=
  { w with left := (w.left.receive relay now m).proxy, toLeft := others }

section fields

variable {relay : Relay} {order : Order} {now : Instant} {m : Message} {others : List Message}

@[simp] theorem left_swap : w.swap.left = w.right :=
  rfl

@[simp] theorem right_swap : w.swap.right = w.left :=
  rfl

@[simp] theorem toLeft_swap : w.swap.toLeft = w.toRight :=
  rfl

@[simp] theorem toRight_swap : w.swap.toRight = w.toLeft :=
  rfl

@[simp] theorem right_request : (w.request relay order).right = w.right :=
  rfl

@[simp] theorem toRight_request : (w.request relay order).toRight =
    w.toRight ++ (w.left.carryOut relay order).sent.map (·.message) :=
  rfl

@[simp] theorem left_deliver :
    (w.deliver relay now m others).left = (w.left.receive relay now m).proxy :=
  rfl

@[simp] theorem toLeft_deliver : (w.deliver relay now m others).toLeft = others :=
  rfl

end fields

/-- What may happen on the left. An id the left proxy draws for the pair is not in use on the right.
-/
inductive Left (pair : PartyPair) (w : World) : World → Prop
  | request (relay : Relay) (order : Order)
    (unused : ∀ id,
      (pair, id) ∈ (w.request relay order).left.register.keys.drop w.left.register.keys.length →
        (pair, id) ∉ w.right.register.keys) : Left pair w (w.request relay order)
  | deliver (relay : Relay) (now : Instant) (before : List Message) (m : Message)
    (after : List Message) (coming : w.toLeft = before ++ m :: after) :
    Left pair w (w.deliver relay now m (before ++ after))
  | lose (before : List Message) (m : Message) (after : List Message)
    (coming : w.toLeft = before ++ m :: after) : Left pair w { w with toLeft := before ++ after }

def Step (pair : PartyPair) (w w' : World) : Prop :=
  Left pair w w' ∨ Left pair w.swap w'.swap

inductive Idle (parties : List Party) (templates : Templates) (s : Settings) : Proxy → Prop
  | start (ps : Parties) (ids : Nat → NegotiationId) (built : ∀ p ∈ parties, p.Built s)
    (made : Parties.ofList parties s = .ok ps) : Idle parties templates s (.start ps templates s ids)

/-- What becomes of two proxies: on the left `p` is owned and `q` is its counter-party, and on the
right `q'` is owned and `p'` is its counter-party, of the same certificates. -/
inductive Reached (p q p' q' : Party) : World → Prop
  | start (parties parties' : List Party) (templates : Templates) (s : Settings)
    (left right : Proxy) (leftIdle : Idle parties templates s left)
    (rightIdle : Idle parties' templates s right) (mem : p ∈ parties ∧ q ∈ parties)
    (mem' : p' ∈ parties' ∧ q' ∈ parties') (owned : p.isOwned = true ∧ q'.isOwned = true)
    (counter : q.isOwned = false ∧ p'.isOwned = false)
    (certificates : p'.certificate = p.certificate ∧ q'.certificate = q.certificate) :
    Reached p q p' q' ⟨left, right, [], []⟩
  | step (w w' : World) (reached : Reached p q p' q' w) (step : Step (.of p.name q.name) w w') :
    Reached p q p' q' w'

def key (p q : Party) (id : NegotiationId) : RegisterKey :=
  (.of p.name q.name, id)

theorem key_comm : key p q id = key q p id := by
  unfold key
  rw [PartyPair.of_comm]

end World

def Message.Goes (a b : Party) (id : NegotiationId) (m : Message) : Prop :=
  m.id = id ∧ m.sender ∈ a.fingerprints ∧ m.receiver ∈ b.fingerprints

instance (a b : Party) (id : NegotiationId) (m : Message) : Decidable (m.Goes a b id) :=
  inferInstanceAs (Decidable (_ ∧ _ ∧ _))

namespace Proxy

variable {r r' : Proxy} {a b : Party} {id : NegotiationId} {n : Negotiation} {m : Message}
variable {now : Instant}

def Knows (r : Proxy) (isOwned : Bool) (a : Party) : Prop :=
  ∃ a' ∈ r.parties.directory.entries, a'.isOwned = isOwned ∧ a'.name = a.name ∧
    a'.fingerprints = a.fingerprints

/-- That a proxy negotiates for one party with another. -/
structure Serves (r : Proxy) (a b : Party) : Prop where
  sound : r.Sound
  owned : r.Knows true a
  counter : r.Knows false b

theorem Serves.of_basis (serves : r.Serves a b) (basis : SameBasis r r') (sound : r'.Sound) :
    r'.Serves a b := by
  refine ⟨sound, ?_, ?_⟩
  · rw [Knows, basis.parties_eq]
    exact serves.owned
  · rw [Knows, basis.parties_eq]
    exact serves.counter

theorem Serves.apart (serves : r.Serves a b) {f : Digest} (mem : f ∈ a.fingerprints) :
    f ∉ b.fingerprints := by
  obtain ⟨sound, ⟨a', a_mem, owned, -, a_eq⟩, ⟨b', b_mem, counter, -, b_eq⟩⟩ := serves
  intro mem'
  rw [← a_eq] at mem
  rw [← b_eq] at mem'
  have same : a' = b' := sound.parties.wellFormed.eq_of_hash a_mem b_mem mem mem'
  rw [same, counter] at owned
  cases owned

theorem Serves.key_eq_iff {f g : Digest} (serves : r.Serves a b)
    (held : n.Held r.parties r.settings) (first : f ∈ n.first.fingerprints)
    (second : g ∈ n.second.fingerprints) :
    n.key = World.key a b id ↔ n.id = id ∧ f ∈ a.fingerprints ∧ g ∈ b.fingerprints := by
  obtain ⟨sound, ⟨a', a_mem, -, a_name, a_eq⟩, ⟨b', b_mem, counter, b_name, b_eq⟩⟩ := serves
  unfold World.key
  rw [← a_name, ← b_name, ← a_eq, ← b_eq]
  constructor
  · intro same
    obtain ⟨rfl, rfl⟩ :=
      held.parties_eq sound.parties a_mem b_mem counter (congrArg Prod.fst same)
    exact ⟨congrArg Prod.snd same, first, second⟩
  · rintro ⟨rfl, first', second'⟩
    obtain rfl := sound.parties.wellFormed.eq_of_hash held.owned_mem a_mem first first'
    obtain rfl := sound.parties.wellFormed.eq_of_hash held.counter_mem b_mem second second'
    rfl

theorem Serves.sends_iff (serves : r.Serves a b) (commits : Commits r r' now n n.first n.second m) :
    n.key = World.key a b id ↔ m.Goes a b id := by
  rw [serves.key_eq_iff commits.held commits.admits.sender_mem commits.admits.receiver_mem,
    ← commits.admits.id_eq]
  rfl

theorem Serves.takes_iff (serves : r.Serves a b) (commits : Commits r r' now n n.second n.first m) :
    n.key = World.key a b id ↔ m.Goes b a id := by
  rw [serves.key_eq_iff commits.held commits.admits.receiver_mem commits.admits.sender_mem,
    ← commits.admits.id_eq]
  exact and_congr_right fun _ => and_comm

theorem Serves.addressed {last : Message} (serves : r.Serves a b)
    (commits : Commits r r' now n n.first n.second m) (here : n.key = World.key a b id)
    (last_eq : (r.log n.key).getLast? = some last) : last.receiver ∈ a.fingerprints := by
  have recorded := commits.held.recorded
  have open_ := recorded.closing_eq_nil commits.admits.turn
  rw [commits.log_before, Negotiation.messages, open_, List.append_nil, List.getLast?_map,
    Option.map_eq_some_iff] at last_eq
  obtain ⟨o, last_eq, rfl⟩ := last_eq
  have names := (commits.held.sides serves.sound.parties).names_ne commits.joins
  obtain ⟨addressed, offered⟩ :=
    recorded.addressed commits.joins names commits.admits.turn last_eq
  exact ((serves.key_eq_iff commits.held addressed offered).1 here).2.1

end Proxy

end Parley
