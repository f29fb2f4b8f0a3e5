import Parley.Proofs.Proxy.Run

namespace Parley.Proxy

variable {p p' : Proxy} {n : Negotiation} {key : RegisterKey} {now : Instant} {m : Message}
variable {a b : Party}

/-- The messages committed to the negotiation under a key. -/
def log (p : Proxy) (key : RegisterKey) : List Message :=
  (p.register.registered? key).elim [] (·.messages)

def turn (p : Proxy) (key : RegisterKey) : Option String :=
  (p.register.registered? key).bind (·.active)

theorem log_of_registered? (found : p.register.registered? key = some n) : p.log key = n.messages := by
  simp [log, found]

theorem log_start {parties : Parties} {templates : Templates} {s : Settings}
    {ids : Nat → NegotiationId} (key : RegisterKey) :
    (start parties templates s ids).log key = [] := by
  unfold log start
  rw [Register.registered?_empty]
  rfl

theorem turn_of_registered? (found : p.register.registered? key = some n) : p.turn key = n.active := by
  simp [turn, found]

theorem Rests.log_eq (rests : Rests p p' now) (key : RegisterKey) : p'.log key = p.log key := by
  obtain same | ⟨n, before, after⟩ := rests.entry key
  · simp only [log, same]
  · rw [log_of_registered? before, log_of_registered? after]
    obtain ⟨status, changed⟩ := n.notice_eq_withStatus now
    rw [changed]
    rfl

theorem Commits.log_before (commits : Commits p p' now n a b m) : p.log n.key = n.messages := by
  obtain known | ⟨missing, new⟩ := commits.stands
  · exact log_of_registered? known
  · rw [log, missing, new]
    rfl

theorem Commits.log_key (commits : Commits p p' now n a b m) :
    p'.log n.key = p.log n.key ++ [m] := by
  rw [commits.log_before, log_of_registered? commits.differs.at_key]
  exact Negotiation.messages_apply (commits.held.recorded.closing_eq_nil commits.admits.turn)

theorem Commits.log_of_ne (commits : Commits p p' now n a b m) (ne : key ≠ n.key) :
    p'.log key = p.log key := by
  simp only [log, commits.differs.elsewhere key ne]

end Parley.Proxy
