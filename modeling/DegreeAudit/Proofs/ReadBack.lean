import DegreeAudit.Proofs.CanonicalForm
import DegreeAudit.Proofs.Resuming

/-!
# Reading back what was written

The indented form of a document is read back as the document itself, if it holds lists, objects with
distinct keys and texts of characters, not too deep inside each other (`Json.Plain`).

**Reaching.** `Reaches limit n s cs s'` says that the machine with a limit of levels, wherever it
stands in a text, comes from the state `s` to the state `s'` by the characters `cs`. What is reached
by two runs of characters is reached by both together, so each part of a written document gets a
lemma of its own.

**Texts.** A character is written as itself, as an escape of two characters, or as one or two
escaped code units. All three are read as the code units of the character (`CodePoint.units`), and
the units of a text without surrogates are decoded as the text (`decodeUnits_units`).

**Values.** From any stack, the characters of a value lead to the state in which the value is pushed
onto the stack (`reaches_value`). The induction is on the document; items and fields that are read
already lie on the stack.
-/

namespace DegreeAudit

/-! ## Hexadecimal digits -/

namespace Text

theorem hexDigits_one {n : Nat} (h : n < 16) : hexDigits 1 n = [n.digitChar] := by
  rw [hexDigits, Nat.toDigits_of_lt_base h]
  rfl

theorem hexDigits_succ {width : Nat} (h : 0 < width) (n : Nat) :
    hexDigits (width + 1) n = hexDigits width (n / 16) ++ [(n % 16).digitChar] := by
  unfold hexDigits
  by_cases hn : n < 16
  · obtain ⟨w, rfl⟩ : ∃ w, width = w + 1 := ⟨width - 1, by omega⟩
    rw [Nat.toDigits_of_lt_base hn, Nat.div_eq_of_lt hn, Nat.mod_eq_of_lt hn]
    show List.replicate (w + 1) '0' ++ _ = (List.replicate w '0' ++ ['0']) ++ _
    rw [List.replicate_succ']
  · rw [Nat.toDigits_of_base_le (by decide) (Nat.le_of_not_lt hn)]
    dsimp only
    rw [List.length_append, List.length_singleton, Nat.add_sub_add_right, List.append_assoc]

/-- The four digits of a code unit. -/
theorem hexDigits_four {n : Nat} (h : n < 0x10000) :
    hexDigits 4 n = [(n / 16 / 16 / 16).digitChar, (n / 16 / 16 % 16).digitChar,
      (n / 16 % 16).digitChar, (n % 16).digitChar] := by
  rw [hexDigits_succ (by decide), hexDigits_succ (by decide), hexDigits_succ (by decide),
    hexDigits_one (by omega)]
  rfl

end Text

/-! ## Code units -/

/-- The UTF-16 code units of a code point. -/
def CodePoint.units (p : CodePoint) : List Nat :=
  if p.val < 0x10000 then [p.val]
  else [0xD800 + (p.val - 0x10000) / 0x400, 0xDC00 + (p.val - 0x10000) % 0x400]

theorem CodePoint.val_bounds {p : CodePoint} (h : p.isSurrogate = false) :
    (p.val < 0xD800 ∨ 0xE000 ≤ p.val) ∧ p.val < 0x110000 := by
  cases p with
  | scalar c =>
    have hvalid := c.valid
    simp only [UInt32.isValidChar, Nat.isValidChar] at hvalid
    simp only [CodePoint.val, Char.toNat]
    omega
  | surrogate i => cases h

theorem CodePoint.units_scalar {c : Char} (h : c.toNat < 0x10000) :
    (scalar c).units = [c.toNat] := if_pos h

theorem CodePoint.lt_of_mem_units {p : CodePoint} (h : p.isSurrogate = false) :
    ∀ u ∈ p.units, u < 0x10000 := by
  have hmax := (val_bounds h).2
  intro u hu
  unfold units at hu
  split at hu
  · next hsmall => rwa [List.mem_singleton.mp hu]
  · rcases List.mem_cons.mp hu with rfl | hu
    · omega
    · rw [List.mem_singleton.mp hu]
      omega

/-- Whether a text has no surrogate. -/
def Text.IsPlain (s : Text) : Prop := ∀ p ∈ s, p.isSurrogate = false

theorem Text.isPlain_ofString (s : String) : IsPlain (ofString s) := by
  intro p hp
  obtain ⟨c, -, rfl⟩ := List.mem_map.mp hp
  rfl

namespace Json

/-! ## Escapes -/

/-- How a character is written in the indented form: as itself, by a short escape, or by its code
units. -/
inductive Escaped (c : Char) : List Char → Prop
  | self (hquote : c ≠ '"') (hslash : c ≠ '\\') (hlow : 0x20 ≤ c.toNat) (hhigh : c.toNat < 0x7F) :
      Escaped c [c]
  | short {e : Char} (hsmall : c.toNat < 0x10000) (hunit : e ≠ 'u')
      (h : Reading.escapeUnit? e = some c.toNat) : Escaped c ['\\', e]
  | units : Escaped c ((CodePoint.scalar c).units.flatMap unitEscape)

theorem escaped_escapeChar (c : Char) : Escaped c (escapeChar c) := by
  by_cases hshort : c ∈ ['"', '\\', '\n', '\r', '\t', '\x08', '\x0c']
  · simp only [List.mem_cons, List.not_mem_nil, or_false] at hshort
    rcases hshort with rfl | rfl | rfl | rfl | rfl | rfl | rfl <;>
      exact .short (by decide) (by decide) rfl
  simp only [List.mem_cons, List.not_mem_nil, or_false, not_or] at hshort
  obtain ⟨hquote, hslash, hfeed, hreturn, htab, hback, hform⟩ := hshort
  have hunits : c.toNat < 0x10000 → unitEscape c.toNat =
      (CodePoint.scalar c).units.flatMap unitEscape := by
    intro hsmall
    rw [CodePoint.units_scalar hsmall, List.flatMap_singleton]
  rw [escapeChar, if_neg hquote, if_neg hslash, if_neg hfeed, if_neg hreturn, if_neg htab,
    if_neg hback, if_neg hform]
  by_cases hlow : c.toNat < 0x20
  · rw [if_pos hlow, hunits (by omega)]
    exact .units
  by_cases hascii : c.toNat < 0x7F
  · rw [if_neg hlow, if_pos hascii]
    exact .self hquote hslash (by omega) hascii
  rw [if_neg hlow, if_neg hascii]
  by_cases hsmall : c.toNat < 0x10000
  · rw [if_pos hsmall, hunits hsmall]
    exact .units
  · have hpair := Escaped.units (c := c)
    rw [CodePoint.units, CodePoint.val_scalar, if_neg hsmall] at hpair
    rw [if_neg hsmall]
    simpa using hpair

namespace Reading

/-- A unit that is no first half of a pair is decoded on its own. -/
theorem decodeUnits_cons {u : Nat} (h : u < 0xD800 ∨ 0xDC00 ≤ u) (us : List Nat) :
    decodeUnits (u :: us) = .ofNat u :: decodeUnits us := by
  cases us with
  | nil => rw [decodeUnits, decodeUnits]
  | cons v rest => rw [decodeUnits, if_neg (by omega)]

/-- **Decoding.** The code units of a text without surrogates are decoded as the text. -/
theorem decodeUnits_units {s : Text} (h : Text.IsPlain s) :
    decodeUnits (s.flatMap CodePoint.units) = s := by
  induction s with
  | nil => rw [List.flatMap_nil, decodeUnits]
  | cons p rest ih =>
    obtain ⟨hp, hrest⟩ := List.forall_mem_cons.mp h
    obtain ⟨hrange, hmax⟩ := CodePoint.val_bounds hp
    rw [List.flatMap_cons, CodePoint.units]
    by_cases hsmall : p.val < 0x10000
    · rw [if_pos hsmall, List.singleton_append, decodeUnits_cons (by omega), ih hrest,
        CodePoint.ofNat_val]
    · have hsum : 0x10000 + (0xD800 + (p.val - 0x10000) / 0x400 - 0xD800) * 0x400 +
          (0xDC00 + (p.val - 0x10000) % 0x400 - 0xDC00) = p.val := by omega
      rw [if_neg hsmall, List.cons_append, List.singleton_append, decodeUnits,
        if_pos (by omega), hsum, ih hrest, CodePoint.ofNat_val]

/-! ## Reaching -/

variable {limit : Nat}

/-- Whether some characters lead from a state to another, at a place in a text. -/
def Reaches (limit n : Nat) (s : Reading) (cs : List Char) (s' : Reading) : Prop :=
  ∀ rest, run limit n s (cs ++ rest) = run limit (n + cs.length) s' rest

section

variable {n : Nat} {s s₁ s' : Reading} {c : Char} {cs ds : List Char}

theorem Reaches.nil (limit n : Nat) (s : Reading) : Reaches limit n s [] s := fun _ => rfl

theorem Reaches.cons (hstep : step limit n s c = .ok s₁) (h : Reaches limit (n + 1) s₁ cs s') :
    Reaches limit n s (c :: cs) s' := by
  intro rest
  rw [List.cons_append, run, hstep]
  show run limit (n + 1) s₁ (cs ++ rest) = _
  rw [h rest, List.length_cons, Nat.add_assoc, Nat.add_comm 1]

theorem Reaches.append (h : Reaches limit n s cs s₁)
    (h' : Reaches limit (n + cs.length) s₁ ds s') : Reaches limit n s (cs ++ ds) s' := by
  intro rest
  rw [List.append_assoc, h, h', List.length_append, Nat.add_assoc]

theorem reaches_single (hstep : step limit n s c = .ok s') : Reaches limit n s [c] s' :=
  .cons hstep (.nil _ _ _)

end

/-! ## Texts -/

/-- A quote with more code units, in order. -/
def addAll (q : Quote) (us : List Nat) : Quote := { q with units := us.reverse ++ q.units }

theorem add_eq_addAll (q : Quote) (u : Nat) : q.add u = addAll q [u] := rfl

theorem addAll_addAll (q : Quote) (us vs : List Nat) :
    addAll (addAll q us) vs = addAll q (us ++ vs) := by
  simp [addAll]

theorem hexValue?_digitChar : ∀ d < 16, hexValue? d.digitChar = some d := by decide

section

variable (stack : List Frame) (q : Quote)

theorem step_unit (n place missing code : Nat) {d : Nat} (hd : d < 16) (hmissing : 1 < missing) :
    step limit n ⟨stack, .unit q place missing code⟩ d.digitChar =
      .ok ⟨stack, .unit q place (missing - 1) (16 * code + d)⟩ := by
  simp only [step, hexValue?_digitChar d hd]
  rw [if_neg (by omega)]

theorem step_lastUnit (n place code : Nat) {d : Nat} (hd : d < 16) :
    step limit n ⟨stack, .unit q place 1 code⟩ d.digitChar =
      .ok ⟨stack, .text (addAll q [16 * code + d]) (some place)⟩ := by
  simp only [step, hexValue?_digitChar d hd, add_eq_addAll]
  rw [if_pos (by omega)]

theorem reaches_unitEscape (n : Nat) (last : Option Nat) {u : Nat} (hu : u < 0x10000) :
    ∃ last', Reaches limit n ⟨stack, .text q last⟩ (unitEscape u)
      ⟨stack, .text (addAll q [u]) last'⟩ := by
  have hvalue : 16 * (16 * (16 * (16 * 0 + u / 16 / 16 / 16) + u / 16 / 16 % 16) + u / 16 % 16) +
      u % 16 = u := by omega
  refine ⟨some (n + 1), ?_⟩
  rw [unitEscape, Text.hexDigits_four hu]
  refine .cons rfl (.cons rfl ?_)
  refine .cons (step_unit _ _ _ _ _ _ (by omega) (by decide)) ?_
  refine .cons (step_unit _ _ _ _ _ _ (by omega) (by decide)) ?_
  refine .cons (step_unit _ _ _ _ _ _ (by omega) (by decide)) ?_
  refine reaches_single ?_
  rw [step_lastUnit _ _ _ _ _ (by omega), hvalue]

theorem reaches_self (n : Nat) (last : Option Nat) {c : Char} (hquote : c ≠ '"')
    (hslash : c ≠ '\\') (hlow : ¬c.toNat < 0x20) :
    Reaches limit n ⟨stack, .text q last⟩ [c] ⟨stack, .text (addAll q [c.toNat]) none⟩ := by
  refine reaches_single ?_
  simp only [step]
  rw [if_neg hquote, if_neg hslash, if_neg hlow, add_eq_addAll]

theorem reaches_escape (n : Nat) (last : Option Nat) {c : Char} {u : Nat} (hunit : c ≠ 'u')
    (h : escapeUnit? c = some u) :
    Reaches limit n ⟨stack, .text q last⟩ ['\\', c] ⟨stack, .text (addAll q [u]) none⟩ := by
  refine .cons rfl (reaches_single ?_)
  simp only [step, h]
  rw [if_neg hunit, add_eq_addAll]

theorem reaches_unitEscapes {us : List Nat} (h : ∀ u ∈ us, u < 0x10000) (n : Nat)
    (last : Option Nat) :
    ∃ last', Reaches limit n ⟨stack, .text q last⟩ (us.flatMap unitEscape)
      ⟨stack, .text (addAll q us) last'⟩ := by
  induction us generalizing q n last with
  | nil => exact ⟨last, .nil _ n _⟩
  | cons u rest ih =>
    rw [List.forall_mem_cons] at h
    obtain ⟨middle, hfirst⟩ := reaches_unitEscape stack q n last h.1
    obtain ⟨last', hsecond⟩ := ih (addAll q [u]) h.2 _ middle
    rw [addAll_addAll] at hsecond
    exact ⟨last', hfirst.append hsecond⟩

/-- **One character.** However a character is written, its units are read. -/
theorem reaches_escaped {c : Char} {cs : List Char} (h : Escaped c cs) (n : Nat)
    (last : Option Nat) :
    ∃ last', Reaches limit n ⟨stack, .text q last⟩ cs
      ⟨stack, .text (addAll q (CodePoint.scalar c).units) last'⟩ := by
  cases h with
  | self hquote hslash hlow hhigh =>
    rw [CodePoint.units_scalar (by omega)]
    exact ⟨none, reaches_self stack q n last hquote hslash (by omega)⟩
  | short hsmall hunit h =>
    rw [CodePoint.units_scalar hsmall]
    exact ⟨none, reaches_escape stack q n last hunit h⟩
  | units => exact reaches_unitEscapes stack q (CodePoint.lt_of_mem_units rfl) n last

theorem reaches_points {s : Text} (h : Text.IsPlain s) (n : Nat) (last : Option Nat) :
    ∃ last', Reaches limit n ⟨stack, .text q last⟩ (s.flatMap escapePoint)
      ⟨stack, .text (addAll q (s.flatMap CodePoint.units)) last'⟩ := by
  induction s generalizing q n last with
  | nil => exact ⟨last, .nil _ n _⟩
  | cons p rest ih =>
    obtain ⟨hp, hrest⟩ := List.forall_mem_cons.mp h
    cases p with
    | surrogate i => cases hp
    | scalar c =>
      obtain ⟨middle, hfirst⟩ := reaches_escaped stack q (escaped_escapeChar c) n last
      obtain ⟨last', hsecond⟩ := ih (addAll q (CodePoint.scalar c).units) hrest _ middle
      rw [addAll_addAll] at hsecond
      rw [List.flatMap_cons, List.flatMap_cons]
      exact ⟨last', hfirst.append hsecond⟩

/-- **A whole text.** After its opening quote, a text is read up to its closing quote. -/
theorem reaches_text {s : Text} (h : Text.IsPlain s) (n : Nat) (isKey : Bool) (start : Nat) :
    Reaches limit n ⟨stack, .text ⟨isKey, start, []⟩ none⟩
      (s.flatMap escapePoint ++ ['"'])
      (if isKey then ⟨pushKey stack s, .colon⟩ else push stack (.text s)) := by
  obtain ⟨last, hpoints⟩ := reaches_points stack ⟨isKey, start, []⟩ h n none
  refine hpoints.append (reaches_single ?_)
  have hunits : decodeUnits
      (addAll ⟨isKey, start, []⟩ (s.flatMap CodePoint.units)).units.reverse = s := by
    rw [addAll, List.append_nil, List.reverse_reverse, decodeUnits_units h]
  show Except.ok (pushText stack (addAll ⟨isKey, start, []⟩ (s.flatMap CodePoint.units))) = _
  rw [pushText, hunits]
  rfl

end

/-! ## Values -/

theorem reaches_gaps {s : Reading} (hplain : ∀ n c, step limit n s c = stepPlain limit n s c)
    {cs : List Char} (h : ∀ c ∈ cs, isGap c = true) (n : Nat) : Reaches limit n s cs s := by
  induction cs generalizing n with
  | nil => exact .nil _ n s
  | cons c rest ih =>
    rw [List.forall_mem_cons] at h
    refine .cons ?_ (ih h.2 (n + 1))
    rw [hplain, stepPlain, if_pos h.1]

theorem isGap_margin (level : Nat) : ∀ c ∈ margin level, isGap c = true := by
  intro c hc
  rcases List.mem_cons.mp hc with rfl | hc
  · rfl
  · rw [List.eq_of_mem_replicate hc]
    rfl

theorem reaches_margin (limit : Nat) {s : Reading}
    (hplain : ∀ n c, step limit n s c = stepPlain limit n s c) (n level : Nat) :
    Reaches limit n s (margin level) s :=
  reaches_gaps hplain (isGap_margin level) n

theorem step_value (limit n : Nat) (stack : List Frame) {c : Char} (hgap : isGap c = false)
    (hclose : c ≠ ']') : step limit n ⟨stack, .value⟩ c = openValue limit n stack c := by
  show stepPlain limit n ⟨stack, .value⟩ c = _
  rw [stepPlain, hgap]
  match stack with
  | [] | .list (_ :: _) :: _ | .object _ _ :: _ => rfl
  | .list [] :: _ => exact if_neg hclose

theorem step_key (n : Nat) (stack : List Frame) :
    step limit n ⟨stack, .key⟩ '"' = .ok ⟨stack, .text ⟨true, n, []⟩ none⟩ := by
  match stack with
  | [] | .list _ :: _ | .object [] _ :: _ | .object (_ :: _) _ :: _ => rfl

theorem openValue_list (n : Nat) {stack : List Frame} (h : stack.length < limit) :
    openValue limit n stack '[' = .ok ⟨.list [] :: stack, .value⟩ := if_pos h

theorem openValue_object (n : Nat) {stack : List Frame} (h : stack.length < limit) :
    openValue limit n stack '\x7b' = .ok ⟨.object [] [] :: stack, .key⟩ := if_pos h

end Reading

/-- Whether a document holds texts of characters, and lists and objects with distinct keys, at most
so many of them inside each other. -/
inductive Plain : Nat → Json → Prop
  | text {depth : Nat} {s : Text} (hs : s.IsPlain) : Plain depth (.text s)
  | list {depth : Nat} {items : List Json} (hitems : ∀ v ∈ items, Plain depth v) :
      Plain (depth + 1) (.list items)
  | object {depth : Nat} {fields : Fields} (hkeys : fields.keys.Nodup)
      (hnames : ∀ f ∈ fields, Text.IsPlain f.1) (hfields : ∀ f ∈ fields, Plain depth f.2) :
      Plain (depth + 1) (.object fields)

namespace Reading

/-- The key of a field is kept for its value. -/
theorem reaches_key {k : Text} (hk : k.IsPlain) (n : Nat) (stack : List Frame) (done : Fields)
    (key : Text) :
    Reaches limit n ⟨.object done key :: stack, .key⟩ (textChars k)
      ⟨.object done k :: stack, .colon⟩ :=
  .cons (step_key n _) (reaches_text _ hk (n + 1) true n)

/-- The value of a field is put after the fields before it. -/
theorem reaches_fieldValue {k : Text} {v : Json} (stack : List Frame) (done : Fields)
    {cs : List Char} (hnew : k ∉ done.keys)
    (hv : ∀ n, Reaches limit n ⟨.object done k :: stack, .value⟩ cs
      (push (.object done k :: stack) v))
    (n : Nat) :
    Reaches limit n ⟨.object done k :: stack, .colon⟩ (':' :: ' ' :: cs)
      ⟨.object (done ++ [(k, v)]) k :: stack, .ended⟩ := by
  have hput : done.put k v = done ++ [(k, v)] :=
    Fields.put_of_not_has (Bool.eq_false_iff.mpr fun h => hnew (Fields.has_iff.mp h))
  have hvalue := hv (n + 1 + 1)
  rw [push, hput] at hvalue
  exact .cons rfl (.cons rfl hvalue)

mutual

theorem reaches_value (limit : Nat) : ∀ (v : Json) {depth : Nat}, v.Plain depth →
    ∀ (n level : Nat) (stack : List Frame), stack.length + depth ≤ limit →
      Reaches limit n ⟨stack, .value⟩ (writeChars level v) (push stack v)
  | .text s, _, h, n, level, stack, _ => by
    cases h with
    | text hs =>
      exact .cons (step_value limit n stack rfl (by decide)) (reaches_text stack hs (n + 1) false n)
  | .list [], _, h, n, level, stack, hdepth => by
    cases h with
    | list hitems =>
      have hopen := (step_value limit n stack rfl (by decide)).trans (openValue_list n (by omega))
      exact .cons hopen (reaches_single rfl)
  | .list (v :: rest), _, h, n, level, stack, hdepth => by
    cases h with
    | list hitems =>
      obtain ⟨hv, hrest⟩ := List.forall_mem_cons.mp hitems
      have hopen := (step_value limit n stack rfl (by decide)).trans (openValue_list n (by omega))
      have hstart := Reaches.cons hopen (reaches_margin limit (fun _ _ => rfl) _ (level + 1))
      have hfirst := fun m => reaches_value limit v hv m (level + 1) (.list [] :: stack)
        (by rw [List.length_cons]; omega)
      have hitems := fun m => reaches_items limit rest hrest m (level + 1) stack [v] (by omega)
      have hmargin := reaches_margin limit (s := ⟨.list (rest.reverse ++ [v]) :: stack, .ended⟩)
        (fun _ _ => rfl)
      have hclose : ∀ m, step limit m ⟨.list (rest.reverse ++ [v]) :: stack, .ended⟩ ']' =
          .ok (push stack (.list (v :: rest))) := by
        intro m
        show Except.ok (push stack (.list (rest.reverse ++ [v]).reverse)) = _
        rw [List.reverse_append, List.reverse_reverse]
        rfl
      rw [writeChars]
      exact (((hstart.append (hfirst _)).append (hitems _)).append (hmargin _ level)).append
        (reaches_single (hclose _))
  | .object [], _, h, n, level, stack, hdepth => by
    cases h with
    | object hkeys hnames hfields =>
      have hopen := (step_value limit n stack rfl (by decide)).trans (openValue_object n (by omega))
      exact .cons hopen (reaches_single rfl)
  | .object ((k, v) :: rest), _, h, n, level, stack, hdepth => by
    cases h with
    | object hkeys hnames hfields =>
      obtain ⟨hk, hnames⟩ := List.forall_mem_cons.mp hnames
      obtain ⟨hv, hrest⟩ := List.forall_mem_cons.mp hfields
      have hopen := (step_value limit n stack rfl (by decide)).trans (openValue_object n (by omega))
      have hstart := Reaches.cons hopen (reaches_margin limit (fun _ _ => rfl) _ (level + 1))
      have hvalue := reaches_fieldValue stack [] List.not_mem_nil fun m =>
        reaches_value limit v hv m (level + 1) (.object [] k :: stack)
          (by rw [List.length_cons]; omega)
      have hfirst := (hstart.append (reaches_key hk _ stack [] [])).append (hvalue _)
      obtain ⟨key, hfields⟩ := reaches_fields limit rest hnames hrest (level + 1) stack [(k, v)] k
        hkeys (by omega)
      have hmargin := reaches_margin limit (s := ⟨.object ([(k, v)] ++ rest) key :: stack, .ended⟩)
        (fun _ _ => rfl)
      rw [writeChars]
      exact ((hfirst.append (hfields _)).append (hmargin _ level)).append (reaches_single rfl)
  | .null, _, h, _, _, _, _ | .bool _, _, h, _, _, _, _ | .int _, _, h, _, _, _, _
  | .float _, _, h, _, _, _, _ => by cases h

theorem reaches_items (limit : Nat) : ∀ (items : List Json) {depth : Nat},
    (∀ v ∈ items, v.Plain depth) → ∀ (n level : Nat) (stack : List Frame) (done : List Json),
      stack.length + 1 + depth ≤ limit →
      Reaches limit n ⟨.list done :: stack, .ended⟩ (writeItems level items)
        ⟨.list (items.reverse ++ done) :: stack, .ended⟩
  | [], _, _, n, _, _, _, _ => .nil _ n _
  | v :: rest, _, h, n, level, stack, done, hdepth => by
    obtain ⟨hv, hrest⟩ := List.forall_mem_cons.mp h
    have hcomma : Reaches limit n ⟨.list done :: stack, .ended⟩ (separator level)
        ⟨.list done :: stack, .value⟩ :=
      .cons rfl (reaches_margin limit (fun _ _ => rfl) _ level)
    have hfirst := fun m => reaches_value limit v hv m level (.list done :: stack)
      (by rw [List.length_cons]; omega)
    have hsplit : (v :: rest).reverse ++ done = rest.reverse ++ v :: done := by
      rw [List.reverse_cons, List.append_assoc, List.singleton_append]
    rw [writeItems, hsplit]
    exact (hcomma.append (hfirst _)).append
      (reaches_items limit rest hrest _ level stack (v :: done) hdepth)

theorem reaches_fields (limit : Nat) : ∀ (fields : List (Text × Json)) {depth : Nat},
    (∀ f ∈ fields, Text.IsPlain f.1) → (∀ f ∈ fields, Json.Plain depth f.2) →
    ∀ (level : Nat) (stack : List Frame) (done : Fields) (key : Text),
      (Fields.keys (done ++ fields)).Nodup → stack.length + 1 + depth ≤ limit →
      ∃ key', ∀ n, Reaches limit n ⟨.object done key :: stack, .ended⟩ (writeFields level fields)
        ⟨.object (done ++ fields) key' :: stack, .ended⟩
  | [], _, _, _, _, _, done, key, _, _ => by
    rw [List.append_nil]
    exact ⟨key, fun n => .nil _ n _⟩
  | (k, v) :: rest, _, hnames, hfields, level, stack, done, key, hkeys, hdepth => by
    obtain ⟨hk, hnames⟩ := List.forall_mem_cons.mp hnames
    obtain ⟨hv, hrest⟩ := List.forall_mem_cons.mp hfields
    have hnew : k ∉ done.keys := by
      rw [Fields.keys, List.map_append, List.nodup_append] at hkeys
      exact fun hmem => hkeys.2.2 k hmem k List.mem_cons_self rfl
    have hcomma : ∀ n, Reaches limit n ⟨.object done key :: stack, .ended⟩
        (separator level) ⟨.object done key :: stack, .key⟩ :=
      fun n => .cons rfl (reaches_margin limit (fun _ _ => rfl) _ level)
    have hvalue := reaches_fieldValue stack done hnew fun m =>
      reaches_value limit v hv m level (.object done k :: stack) (by rw [List.length_cons]; omega)
    have hfirst := fun n =>
      ((hcomma n).append (reaches_key hk _ stack done key)).append (hvalue _)
    have hsplit : done ++ (k, v) :: rest = (done ++ [(k, v)]) ++ rest := by
      rw [List.append_assoc, List.singleton_append]
    rw [hsplit] at hkeys ⊢
    obtain ⟨key', hlast⟩ := reaches_fields limit rest hnames hrest level stack (done ++ [(k, v)]) k
      hkeys hdepth
    rw [writeFields]
    exact ⟨key', fun n => (hfirst n).append (hlast _)⟩

end

end Reading

/-! ## Line ends -/

theorem not_mem_unitEscapes {us : List Nat} (h : ∀ u ∈ us, u < 0x10000) :
    '\r' ∉ us.flatMap unitEscape := by
  have hdigit : ∀ d < 16, '\r' ≠ d.digitChar := by decide
  intro hmem
  obtain ⟨u, hu, hmem⟩ := List.mem_flatMap.mp hmem
  have hsmall := h u hu
  rw [unitEscape, Text.hexDigits_four hsmall] at hmem
  simp only [List.mem_cons, List.not_mem_nil, or_false] at hmem
  rcases hmem with hmem | hmem | hmem | hmem | hmem | hmem
  · exact absurd hmem (by decide)
  · exact absurd hmem (by decide)
  all_goals exact hdigit _ (by omega) hmem

theorem Escaped.not_mem {c : Char} {cs : List Char} (h : Escaped c cs) : '\r' ∉ cs := by
  cases h with
  | self hquote hslash hlow hhigh =>
    rw [List.mem_singleton]
    rintro rfl
    exact absurd hlow (by decide)
  | short hsmall hunit h =>
    intro hmem
    simp only [List.mem_cons, List.not_mem_nil, or_false] at hmem
    rcases hmem with hmem | rfl
    · exact absurd hmem (by decide)
    · cases h
  | units => exact not_mem_unitEscapes (CodePoint.lt_of_mem_units rfl)

theorem not_mem_textChars {s : Text} (h : s.IsPlain) : '\r' ∉ textChars s := by
  intro hmem
  rw [textChars, List.cons_append, List.mem_cons, List.mem_append] at hmem
  rcases hmem with hmem | hmem | hmem
  · exact absurd hmem (by decide)
  · obtain ⟨p, hp, hmem⟩ := List.mem_flatMap.mp hmem
    cases p with
    | scalar c => exact (escaped_escapeChar c).not_mem hmem
    | surrogate i => cases h _ hp
  · exact absurd (List.mem_singleton.mp hmem) (by decide)

theorem not_mem_margin (level : Nat) : '\r' ∉ margin level := by
  intro hmem
  rcases List.mem_cons.mp hmem with hmem | hmem
  · exact absurd hmem (by decide)
  · exact absurd (List.eq_of_mem_replicate hmem) (by decide)

mutual

theorem not_mem_writeChars : ∀ (v : Json) {depth : Nat}, v.Plain depth → ∀ level,
    '\r' ∉ writeChars level v
  | .text s, _, h, level => by
    cases h with
    | text hs => exact not_mem_textChars hs
  | .list [], _, _, level => by
    rw [writeChars]
    decide
  | .list (v :: rest), _, h, level => by
    cases h with
    | list hitems =>
      obtain ⟨hv, hrest⟩ := List.forall_mem_cons.mp hitems
      have hfirst := not_mem_writeChars v hv (level + 1)
      have hothers := not_mem_writeItems rest hrest (level + 1)
      simp [writeChars, not_mem_margin, hfirst, hothers]
  | .object [], _, _, level => by
    rw [writeChars]
    decide
  | .object ((k, v) :: rest), _, h, level => by
    cases h with
    | object hkeys hnames hfields =>
      obtain ⟨hk, hnames⟩ := List.forall_mem_cons.mp hnames
      obtain ⟨hv, hrest⟩ := List.forall_mem_cons.mp hfields
      have hkey := not_mem_textChars hk
      have hfirst := not_mem_writeChars v hv (level + 1)
      have hothers := not_mem_writeFields rest hnames hrest (level + 1)
      simp [writeChars, not_mem_margin, hkey, hfirst, hothers]
  | .null, _, h, _ | .bool _, _, h, _ | .int _, _, h, _ | .float _, _, h, _ => by cases h

theorem not_mem_writeItems : ∀ (items : List Json) {depth : Nat}, (∀ v ∈ items, v.Plain depth) →
    ∀ level, '\r' ∉ writeItems level items
  | [], _, _, _ => List.not_mem_nil
  | v :: rest, _, h, level => by
    obtain ⟨hv, hrest⟩ := List.forall_mem_cons.mp h
    have hfirst := not_mem_writeChars v hv level
    have hothers := not_mem_writeItems rest hrest level
    simp [writeItems, separator, not_mem_margin, hfirst, hothers]

theorem not_mem_writeFields : ∀ (fields : List (Text × Json)) {depth : Nat},
    (∀ f ∈ fields, Text.IsPlain f.1) → (∀ f ∈ fields, Json.Plain depth f.2) →
    ∀ level, '\r' ∉ writeFields level fields
  | [], _, _, _, _ => List.not_mem_nil
  | (k, v) :: rest, _, hnames, hfields, level => by
    obtain ⟨hk, hnames⟩ := List.forall_mem_cons.mp hnames
    obtain ⟨hv, hrest⟩ := List.forall_mem_cons.mp hfields
    have hkey := not_mem_textChars hk
    have hfirst := not_mem_writeChars v hv level
    have hothers := not_mem_writeFields rest hnames hrest level
    simp [writeFields, separator, not_mem_margin, hkey, hfirst, hothers]

end

theorem withLineFeeds_eq_self {cs : List Char} (h : '\r' ∉ cs) : Folder.withLineFeeds cs = cs := by
  have hfold : ∀ (read : List Char), cs.foldl (fun (read : List Char × Bool) c =>
      if c = '\r' then ('\n' :: read.1, true)
      else if c = '\n' && read.2 then (read.1, false)
      else (c :: read.1, false)) (read, false) = (cs.reverse ++ read, false) := by
    induction cs with
    | nil => exact fun _ => rfl
    | cons c rest ih =>
      rw [List.mem_cons, not_or] at h
      intro read
      rw [List.foldl_cons, if_neg (Ne.symm h.1), Bool.and_false, if_neg Bool.false_ne_true, ih h.2,
        List.reverse_cons, List.append_assoc, List.singleton_append]
  show (cs.foldl _ ([], false)).1.reverse = cs
  rw [hfold, List.append_nil, List.reverse_reverse]

/-! ## Whole documents -/

theorem readChars_writeChars {v : Json} {depth limit : Nat} (h : v.Plain depth)
    (hdepth : depth ≤ limit) : readChars limit (writeChars 0 v) = .ok v := by
  have hstart : (writeChars 0 v).head? ≠ some '\uFEFF' := by
    cases h with
    | text hs => exact nofun
    | @list _ items hitems => cases items <;> (rw [writeChars]; exact nofun)
    | @object _ fields hkeys hnames hfields => cases fields <;> (rw [writeChars]; exact nofun)
  have hrun := Reading.reaches_value limit v h 0 0 [] (by simpa using hdepth) []
  rw [List.append_nil] at hrun
  rw [readChars, if_neg hstart]
  exact hrun

/-- **Read back.** A reader whose limit is not too low gets a plain document back from what is
written for it. -/
theorem Plain.readsBack {v : Json} {depth limit : Nat} (h : v.Plain depth)
    (hdepth : depth ≤ limit) : ReadsBack limit v := by
  rw [readsBack_iff, withLineFeeds_eq_self (not_mem_writeChars v h 0),
    readChars_writeChars h hdepth]
  rfl

end Json

end DegreeAudit
