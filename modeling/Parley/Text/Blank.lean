namespace Parley.Text

/-- The characters with the Unicode property `White_Space`. -/
def isBlank (c : Char) : Bool :=
  let n := c.toNat
  (9 ≤ n && n ≤ 13) || n == 32 || n == 0x85 || n == 0xA0 || n == 0x1680 ||
    (0x2000 ≤ n && n ≤ 0x200A) || n == 0x2028 || n == 0x2029 || n == 0x202F || n == 0x205F ||
    n == 0x3000

def allBlank (s : String) : Bool :=
  s.toList.all isBlank

def trimEnd : List Char → List Char
  | [] => []
  | c :: rest =>
    match trimEnd rest with
    | [] => if isBlank c then [] else [c]
    | kept => c :: kept

def trim (s : String) : String :=
  String.ofList (trimEnd (s.toList.dropWhile isBlank))

def cells (separator : Char) : List Char → List (List Char)
  | [] => [[]]
  | c :: rest =>
    if c = separator then [] :: cells separator rest
    else
      match cells separator rest with
      | [] => [[c]]
      | cell :: more => (c :: cell) :: more

@[simp] theorem trimEnd_nil : trimEnd [] = [] := rfl

theorem trimEnd_eq_nil_iff (cs : List Char) : trimEnd cs = [] ↔ cs.all isBlank = true := by
  induction cs with
  | nil => simp [trimEnd]
  | cons c rest ih =>
    simp only [trimEnd, List.all_cons, Bool.and_eq_true]
    split
    next h =>
      by_cases hc : isBlank c = true
      · simp [hc, ih.1 h]
      · simp [hc]
    next h =>
      have : ¬ rest.all isBlank = true := fun ht => h (ih.2 ht)
      simp [this]

end Parley.Text
