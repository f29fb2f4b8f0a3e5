import Parley.Proofs.Proxy.Expiry

namespace Parley

namespace Negotiation

variable {n n' : Negotiation} {ctx : UpdateContext} {m : Message} {x : Acceptance} {last : Offer}
variable {a b : Party}

theorem receive_of_route (route : n.inboundRoute m = .ok (a, b))
    (checked : n.checkInbound ctx a m = .ok ()) : n.receive ctx m = (.ok (), n.apply m b) := by
  unfold receive
  simp only [route, checked]

end Negotiation

namespace Proxy

variable {p p₁ : Proxy} {n : Negotiation} {key : RegisterKey} {h : Handle} {m : Message}
variable {relay : Relay} {now : Instant} {x : Acceptance} {last : Offer} {call : Call}

theorem Picks.take_cases (picks : Picks p (.message relay now m) p₁ h n) (standing : p.Standing)
    (whom : Party) :
    (∃ e n', n.receive (p.context now) m = (.error e, n') ∧
      Traceless (.message relay now m) p (p₁.take relay now m whom h n).proxy) ∨
    ∃ b, n.receive (p.context now) m = (.ok (), n.apply m b) ∧
      (p₁.take relay now m whom h n).proxy.register = p₁.register.put h (n.apply m b) := by
  unfold take
  rw [picks.basis.context_eq]
  cases received : n.receive (p.context now) m with
  | mk result n' =>
    cases result with
    | error e =>
      exact .inl ⟨e, n', rfl, picks.traceless standing.settled (Negotiation.stays_of_receive received)⟩
    | ok u =>
      obtain ⟨b, -, -, rfl⟩ := Negotiation.receive_eq_ok received
      exact .inr ⟨b, rfl, settle_resolve_eq.2.1⟩

end Proxy

namespace Sample
open Negotiation

end Sample

end Parley
