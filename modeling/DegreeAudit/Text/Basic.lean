/-!
# Texts

A text is a list of code points. A code point is a character or a surrogate: surrogates stand for no
character, but a document can write one as an escape, and two texts that differ in a surrogate are
different codes, names and keys. So texts keep them, and only `render` replaces them.
-/

namespace DegreeAudit

/-- A code point: a character or one of the 2048 surrogates. -/
inductive CodePoint where
  | scalar (c : Char)
  | surrogate (index : Fin 2048)
deriving DecidableEq, Inhabited

namespace CodePoint

instance : Coe Char CodePoint := ⟨scalar⟩

/-- The number of a code point. -/
def val : CodePoint → Nat
  | scalar c => c.toNat
  | surrogate i => 0xD800 + i

/-- Whether a code point stands for no character. -/
def isSurrogate : CodePoint → Bool
  | scalar _ => false
  | surrogate _ => true

/-- The code point of a number. -/
def ofNat (n : Nat) : CodePoint :=
  if h : 0xD800 ≤ n ∧ n < 0xE000 then surrogate ⟨n - 0xD800, by omega⟩ else scalar (Char.ofNat n)

@[simp] theorem val_scalar (c : Char) : (scalar c).val = c.toNat := rfl

/-- No character has the number of a surrogate, so code points are known by their numbers. -/
theorem val_injective {a b : CodePoint} (h : a.val = b.val) : a = b := by
  cases a with
  | scalar c =>
    cases b with
    | scalar d => rw [Char.toNat_inj.mp h]
    | surrogate j =>
      have hc := c.valid
      simp only [val, Char.toNat] at h
      simp only [UInt32.isValidChar, Nat.isValidChar] at hc
      omega
  | surrogate i =>
    cases b with
    | scalar d =>
      have hd := d.valid
      simp only [val, Char.toNat] at h
      simp only [UInt32.isValidChar, Nat.isValidChar] at hd
      omega
    | surrogate j =>
      simp only [val] at h
      exact congrArg surrogate (Fin.ext (by omega))

end CodePoint

/-- A text. -/
abbrev Text := List CodePoint

instance : LawfulBEq Text := inferInstanceAs (LawfulBEq (List CodePoint))

namespace Text

/-- The text of a list of characters. -/
def ofChars (cs : List Char) : Text := cs.map .scalar

/-- The text of a string. -/
def ofString (s : String) : Text := ofChars s.toList

instance : Coe String Text := ⟨ofString⟩

/-- The text as characters. A surrogate stands for none and becomes the replacement character. -/
def render (t : Text) : String :=
  String.ofList (t.map fun
    | .scalar c => c
    | .surrogate _ => '\uFFFD')

/-- A whole number in decimal digits. -/
def decimal (n : Int) : Text := ofString (toString n)

/-- Whether a text comes before another one, or is the same, in the order of code points. -/
protected def le : Text → Text → Bool
  | [], _ => true
  | _ :: _, [] => false
  | c :: s, d :: t => decide (c.val < d.val) || (decide (c.val = d.val) && Text.le s t)

/-- A text without surrogates is read back from its characters. -/
theorem render_ofString (s : String) : render (ofString s) = s := by
  simp [render, ofString, ofChars, Function.comp_def]

protected theorem le_total (s t : Text) : Text.le s t || Text.le t s := by
  induction s generalizing t with
  | nil => simp [Text.le]
  | cons c s ih =>
    cases t with
    | nil => simp [Text.le]
    | cons d t =>
      have htail := ih t
      simp only [Text.le, Bool.or_eq_true, Bool.and_eq_true, decide_eq_true_eq] at *
      rcases Nat.lt_trichotomy c.val d.val with h | h | h
      · exact .inl (.inl h)
      · exact htail.imp (fun hst => .inr ⟨h, hst⟩) fun hts => .inr ⟨h.symm, hts⟩
      · exact .inr (.inl h)

protected theorem le_trans {s t u : Text} (hst : Text.le s t) (htu : Text.le t u) :
    Text.le s u := by
  induction s generalizing t u with
  | nil => simp [Text.le]
  | cons c s ih =>
    match t, u, hst, htu with
    | d :: t, e :: u, hst, htu =>
      have htail := @ih t u
      simp only [Text.le, Bool.or_eq_true, Bool.and_eq_true, decide_eq_true_eq] at *
      rcases hst with h | ⟨h, hst⟩ <;> rcases htu with h' | ⟨h', htu⟩
      · exact .inl (by omega)
      · exact .inl (by omega)
      · exact .inl (by omega)
      · exact .inr ⟨by omega, htail hst htu⟩

protected theorem le_antisymm {s t : Text} (hst : Text.le s t) (hts : Text.le t s) : s = t := by
  induction s generalizing t with
  | nil => cases t with
    | nil => rfl
    | cons => simp [Text.le] at hts
  | cons c s ih =>
    match t, hst, hts with
    | d :: t, hst, hts =>
      simp only [Text.le, Bool.or_eq_true, Bool.and_eq_true, decide_eq_true_eq] at hst hts
      rcases hst with h | ⟨h, hst⟩
      · rcases hts with h' | ⟨h', -⟩ <;> omega
      · rcases hts with h' | ⟨-, hts⟩
        · omega
        · rw [CodePoint.val_injective h, ih hst hts]

end Text

end DegreeAudit
