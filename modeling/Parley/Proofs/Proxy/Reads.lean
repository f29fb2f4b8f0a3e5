import Mathlib.Data.List.Forall2
import Parley.Proofs.Proxy.Conversation
import Parley.Proofs.Proxy.Standing
import Parley.Proofs.Rendering

namespace Parley

namespace Negotiation

variable {n : Negotiation} {ps : Parties} {templates : Templates} {s : Settings} {o : Offer}

theorem Orderly.lastRequest (orderly : n.Orderly templates s) (held : n.Held ps s)
    (last_eq : n.lastOffer? = some o) : ∃ r, n.lastRequest templates = .ok (some r) := by
  have mem : o ∈ n.offers := List.mem_of_getLast? last_eq
  obtain ⟨-, -, known⟩ := orderly.terms o mem
  obtain ⟨-, a, b, joins, travels⟩ := held.recorded.signed (.offer o) (by simp [messages, mem])
  refine lastRequest_of_offer last_eq ?_ ?_ known
  · exact partyByFingerprint_of_mem joins.mem_parties travels.sender_mem
  · exact partyByFingerprint_of_mem joins.symm.mem_parties travels.receiver_mem

theorem Orderly.words (orderly : n.Orderly templates s) (sound : templates.Sound s)
    (last_eq : n.lastOffer? = some o) : ∀ c ∈ o.contracts, ∃ text, templates.render c = .ok text := by
  intro c offered
  obtain ⟨-, -, known⟩ := orderly.terms o (List.mem_of_getLast? last_eq)
  obtain ⟨t, fits⟩ := known c offered
  exact Templates.render_eq_ok sound fits

theorem Orderly.shown (orderly : n.Orderly templates s) (held : n.Held ps s) :
    ∃ offer, n.lastRequest templates = .ok offer := by
  cases last_eq : n.lastOffer? with
  | none => exact ⟨none, by simp only [Negotiation.lastRequest, last_eq]⟩
  | some o =>
    obtain ⟨r, shown⟩ := orderly.lastRequest held last_eq
    exact ⟨some r, shown⟩

end Negotiation

namespace Proxy

variable {p : Proxy} {n : Negotiation} {h : Handle} {a b : String} {defined : List Template}

theorem Reached.perform (reached : p.Reached) (call : Call) : (p.perform call).proxy.Reached := by
  obtain ⟨parties, ps, templates, s, ids, calls, built, made⟩ := reached
  have more := Reached.run parties ps templates s ids (calls ++ [call]) built made
  rw [run_append] at more
  exact more

theorem Reached.standing (reached : p.Reached) : p.Standing := by
  obtain ⟨parties, ps, templates, s, ids, calls, built, made⟩ := reached
  exact run_standing (standing_start (Parties.ofList_eq_ok made).2.2) calls

/-- What the two names and the id of a negotiation read: its status, its last offer as its owner would
have asked for it, and one text for each contract of that offer. -/
structure Reads (p : Proxy) (a b : String) (n : Negotiation) : Prop where
  status : p.status a b n.id = .ok n.status
  shown : ∃ r, p.lastRequest a b n.id = .ok (some r)
  texts : ∃ last texts, n.lastOffer? = some last ∧ p.renderLastOffer a b n.id = .ok (some texts) ∧
    List.Forall₂ (fun c text => p.templates.render c = .ok text) last.contracts texts

theorem renderContract_eq_ok_iff {c : Contract} {text : String} :
    p.renderContract c = .ok text ↔ p.templates.render c = .ok text := by
  unfold renderContract
  split
  next rendered => rw [rendered]; exact iff_of_false nofun nofun
  next => exact Iff.rfl

theorem reads_of_getBy (got : p.register.getBy a b n.id = .ok (h, n)) (held : n.Held p.parties p.settings)
    (orderly : n.Orderly p.templates p.settings) (sound : p.templates.Sound p.settings)
    (some_offers : n.offers ≠ []) : p.Reads a b n := by
  have found : p.negotiation a b n.id = .ok n := by
    unfold negotiation
    rw [got]
    rfl
  have last_eq : n.lastOffer? = some (n.offers.getLast some_offers) :=
    List.getLast?_eq_some_getLast some_offers
  obtain ⟨r, shown⟩ := orderly.lastRequest held last_eq
  have worded' : ∀ c ∈ (n.offers.getLast some_offers).contracts, ∃ text,
      p.renderContract c = .ok text := fun c offered =>
    (orderly.words sound last_eq c offered).imp fun _ => renderContract_eq_ok_iff.2
  obtain ⟨texts, rendered, pairs⟩ := mapM_eq_ok worded'
  refine ⟨?_, ⟨r, ?_⟩, _, texts, last_eq, ?_,
    pairs.imp fun c text => renderContract_eq_ok_iff.1⟩
  · unfold status
    rw [found]
    rfl
  · unfold lastRequest
    rw [found]
    exact shown
  · unfold renderLastOffer
    simp only [found, last_eq, rendered, bind, Except.bind, pure, Except.pure]

theorem perform_eq_error (reached : p.Reached) (built : ∀ t ∈ defined, t.Built p.settings)
    (made : Templates.ofList defined = .ok p.templates) {call : Call} {e : Error}
    (failed : (p.perform call).result = .error e) :
    e.Hopeless ∨ (∃ cause, e = .relay cause) ∨ e.Collides := by
  have basis : SameBasis p (p.perform call).proxy := perform_basis reached.sound call
  have performs := perform_performs reached.standing.wellFormed call
  obtain hopeless | ⟨cause, eq, -⟩ | collides | ⟨n, mem, hidden⟩ :=
    performs.error_cases reached.standing failed
  · exact .inl hopeless
  · exact .inr (.inl ⟨cause, eq⟩)
  · exact .inr (.inr collides)
  · rw [← basis.settings_eq] at built
    rw [← basis.templates_eq] at made hidden
    obtain ⟨held, orderly⟩ := (reached.perform call).orderly built made n mem
    obtain ⟨offer, shown⟩ := orderly.shown held
    cases shown.symm.trans hidden

/-- However a proxy was used, no operation finds that a template of a validated contract is gone, or
that a message was prepared against another state; and whatever is registered can be read, whichever
of its two parties is named first. -/
theorem reads_succeed (reached : p.Reached) (built : ∀ t ∈ defined, t.Built p.settings)
    (made : Templates.ofList defined = .ok p.templates) :
    (∀ call reason, (p.perform call).result ≠ .error (.templateVanished reason) ∧
      (p.perform call).result ≠ .error (.stalePreparation reason)) ∧
    ∀ key n, p.register.registered? key = some n →
      n.key = key ∧ p.Reads n.first.name n.second.name n ∧ p.Reads n.second.name n.first.name n := by
  have standing := reached.standing
  have sound := Templates.sound_ofList built made
  refine ⟨fun call reason => ?_, fun key n found => ?_⟩
  · refine ⟨fun failed => ?_, fun failed => ?_⟩
    · obtain (declines | _) | ⟨_, ⟨⟩⟩ | ⟨_, ⟨⟩⟩ := perform_eq_error reached built made failed
      exact declines
    · obtain (declines | _) | ⟨_, ⟨⟩⟩ | ⟨_, ⟨⟩⟩ := perform_eq_error reached built made failed
      exact declines
  · obtain ⟨h, found'⟩ := Register.registered?_eq_some found
    obtain rfl := standing.settled.register.key_eq found'
    obtain ⟨h, -, got⟩ := getBy_of_known found
    obtain ⟨held, orderly⟩ := reached.orderly built made n (Register.mem_of_registered? found)
    have some_offers := standing.offers_ne_nil found
    exact ⟨rfl, reads_of_getBy got held orderly sound some_offers,
      reads_of_getBy (Register.getBy_comm got) held orderly sound some_offers⟩

end Proxy

namespace Sample

theorem sale_reads : ∃ n, (proxy.run (sale 7)).register.registered? (pending 7).key = some n ∧
    (proxy.run (sale 7)).Reads n.first.name n.second.name n ∧
    (proxy.run (sale 7)).Reads n.second.name n.first.name n := by
  obtain ⟨x, commits⟩ := acceptance_commits 7
  have found := commits.differs.at_key
  rw [← run_sale] at found
  obtain ⟨built, made⟩ := run_defined (sale 7)
  obtain ⟨-, reads⟩ := Proxy.reads_succeed (proxy_reached (sale 7)) built made
  exact ⟨_, found, (reads _ _ found).2⟩

end Sample

end Parley
