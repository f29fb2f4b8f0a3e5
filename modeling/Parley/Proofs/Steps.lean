import Mathlib.Data.List.Forall2
import Parley.Error

namespace Parley

theorem bind_eq_ok_iff {ε α β : Type} {x : Except ε α} {f : α → Except ε β} {b : β} :
    x >>= f = .ok b ↔ ∃ a, x = .ok a ∧ f a = .ok b := by
  cases x with
  | error e => simp [bind, Except.bind]
  | ok a => simp [bind, Except.bind]

theorem check_bind_eq_ok_iff {ε β : Type} {x : Except ε Unit} {f : Unit → Except ε β} {b : β} :
    x >>= f = .ok b ↔ x = .ok () ∧ f () = .ok b := by
  rw [bind_eq_ok_iff]
  constructor
  · rintro ⟨_, passed, rest⟩
    exact ⟨passed, rest⟩
  · rintro ⟨passed, rest⟩
    exact ⟨(), passed, rest⟩

theorem guard_bind_eq_ok_iff {β : Type} {c : Prop} [Decidable c] {e : Error}
    {f : PUnit → Except Error β} {y : Except Error β} {b : β} :
    (if c then throw e >>= f else y) = .ok b ↔ ¬ c ∧ y = .ok b := by
  split
  next holds => simp [holds, throw, throwThe, MonadExceptOf.throw, bind, Except.bind]
  next fails => simp [fails]

theorem forM_eq_ok_iff {ε α : Type} {f : α → Except ε Unit} {xs : List α} :
    xs.forM f = .ok () ↔ ∀ x ∈ xs, f x = .ok () := by
  induction xs with
  | nil => exact ⟨fun _ => nofun, fun _ => rfl⟩
  | cons x rest ih => rw [List.forM, check_bind_eq_ok_iff, List.forall_mem_cons, ih]

theorem mapM_eq_ok {ε α β : Type} {f : α → Except ε β} {xs : List α}
    (each : ∀ a ∈ xs, ∃ b, f a = .ok b) :
    ∃ bs, xs.mapM f = .ok bs ∧ List.Forall₂ (fun a b => f a = .ok b) xs bs := by
  induction xs with
  | nil => exact ⟨[], rfl, .nil⟩
  | cons a rest ih =>
    obtain ⟨b, first⟩ := each a List.mem_cons_self
    obtain ⟨bs, others, pairs⟩ := ih fun a mem => each a (List.mem_cons_of_mem _ mem)
    refine ⟨b :: bs, ?_, .cons first pairs⟩
    rw [List.mapM_cons, first, others]
    rfl

theorem mapM_eq_ok_iff {ε α β : Type} {f : α → Except ε β} {xs : List α} {ys : List β} :
    xs.mapM f = .ok ys ↔ List.Forall₂ (fun x y => f x = .ok y) xs ys := by
  induction xs generalizing ys with
  | nil =>
    rw [List.mapM_nil, List.forall₂_nil_left_iff]
    exact ⟨fun none => (Except.ok.inj none).symm, fun none => none ▸ rfl⟩
  | cons x xs ih =>
    rw [List.mapM_cons, List.forall₂_cons_left_iff]
    simp only [bind_eq_ok_iff, ih]
    constructor
    · rintro ⟨y, first, ys, rest, ⟨⟩⟩
      exact ⟨y, ys, first, rest, rfl⟩
    · rintro ⟨y, ys, first, rest, rfl⟩
      exact ⟨y, first, ys, rest, rfl⟩

theorem mapM_eq_error {ε α β : Type} {f : α → Except ε β} {P : ε → Prop}
    (each : ∀ a e, f a = .error e → P e) {xs : List α} {e : ε} (failed : xs.mapM f = .error e) :
    P e := by
  induction xs with
  | nil => cases failed
  | cons a rest ih =>
    rw [List.mapM_cons] at failed
    cases first : f a with
    | error e' =>
      rw [first] at failed
      cases failed
      exact each a _ first
    | ok b =>
      cases others : rest.mapM f with
      | error e' =>
        rw [first, others] at failed
        cases failed
        exact ih others
      | ok bs =>
        rw [first, others] at failed
        cases failed

section

variable {α β : Type} {R : α → β → Prop} {xs : List α} {ys : List β}

theorem exists_of_forall₂ {x : α} (pairs : List.Forall₂ R xs ys) (mem : x ∈ xs) :
    ∃ y ∈ ys, R x y := by
  induction pairs with
  | nil => cases mem
  | cons first rest ih =>
    obtain rfl | mem := List.mem_cons.1 mem
    · exact ⟨_, List.mem_cons_self, first⟩
    · obtain ⟨y, mem', related⟩ := ih mem
      exact ⟨y, List.mem_cons_of_mem _ mem', related⟩

theorem forall_mem_iff_of_forall₂ {p : α → Prop} {q : β → Prop} (pairs : List.Forall₂ R xs ys)
    (agree : ∀ {x y}, R x y → (p x ↔ q y)) : (∀ x ∈ xs, p x) ↔ ∀ y ∈ ys, q y := by
  induction pairs with
  | nil => exact ⟨nofun, nofun⟩
  | cons first rest ih => rw [List.forall_mem_cons, List.forall_mem_cons, agree first, ih]

theorem pairwise_iff_of_forall₂ {P : α → α → Prop} {Q : β → β → Prop}
    (pairs : List.Forall₂ R xs ys)
    (agree : ∀ {x y x' y'}, R x y → R x' y' → (P x x' ↔ Q y y')) :
    xs.Pairwise P ↔ ys.Pairwise Q := by
  induction pairs with
  | nil => simp
  | cons first rest ih =>
    rw [List.pairwise_cons, List.pairwise_cons, ih,
      forall_mem_iff_of_forall₂ rest fun related => agree first related]

end

end Parley
