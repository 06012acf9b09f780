import Mathlib.Data.List.TakeWhile
import Mathlib.Tactic.Cases

/-!
# SQL identifiers

An unquoted identifier is folded to lower case, and a keyword may not stand for one. A quoted one is
taken literally. Both are cut to the same length. A name can be written down in three ways: as it
is, between quotes, or between quotes only where it would otherwise be read as another.
-/

namespace SqlIdentifier

def isLower (c : Char) : Bool := 'a' ≤ c && c ≤ 'z'

def isUpper (c : Char) : Bool := 'A' ≤ c && c ≤ 'Z'

def isNumeral (c : Char) : Bool := '0' ≤ c && c ≤ '9'

def identStart (c : Char) : Bool := isLower c || isUpper c || c == '_' || decide (128 ≤ c.toNat)

def identCont (c : Char) : Bool := identStart c || isNumeral c || c == '$'

def fold (c : Char) : Char := if isUpper c then Char.ofNat (c.toNat + 32) else c

def maxLength : ℕ := 63

def truncate (name : List Char) : List Char := name.take maxLength

/-- The words with a meaning of their own: those that are quoted where they stand for a name, and
among them those that are refused where they are not. -/
structure Keywords where
  quoted : List Char → Bool
  reserved : List Char → Bool
  quoted_of_reserved : ∀ w, reserved w = true → quoted w = true
  short : ∀ w, quoted w = true → w.length < maxLength

def escape (c : Char) : List Char := if c = '"' then ['"', '"'] else [c]

def quoteIdentifier (name : List Char) : List Char := '"' :: (name.flatMap escape ++ ['"'])

def Keywords.bare (K : Keywords) (name : List Char) : Bool :=
  match name with
  | [] => false
  | c :: cs =>
    (isLower c || c == '_') && cs.all (fun d => isLower d || isNumeral d || d == '_') &&
      !K.quoted name

def Keywords.quoteIdent (K : Keywords) (name : List Char) : List Char :=
  if K.bare name then name else quoteIdentifier name

inductive Token where
  | word (folded : List Char)
  | quoted (name : List Char)
  deriving DecidableEq, Repr

def Token.name : Token → List Char
  | .word w => truncate w
  | .quoted n => truncate n

/-- The name a token stands for where a keyword may not stand. -/
def Keywords.colId (K : Keywords) : Token → Option (List Char)
  | .word w => if K.reserved w then none else some (truncate w)
  | .quoted n => some (truncate n)

/-- What stands before the closing quote, and what follows it. -/
def lexQuoted : List Char → Option (List Char × List Char)
  | [] => none
  | [c] => if c = '"' then some ([], []) else none
  | c :: d :: cs =>
    if c = '"' then
      if d = '"' then (lexQuoted cs).map fun p => ('"' :: p.1, p.2) else some ([], d :: cs)
    else (lexQuoted (d :: cs)).map fun p => (c :: p.1, p.2)

def lexIdent : List Char → Option (Token × List Char)
  | [] => none
  | c :: cs =>
    if c = '"' then
      match lexQuoted cs with
      | some (name, rest) => if name.isEmpty then none else some (.quoted name, rest)
      | none => none
    else if identStart c then
      some (.word (((c :: cs).takeWhile identCont).map fold), (c :: cs).dropWhile identCont)
    else none

structure Relation where
  schema : List Char
  name : List Char
  deriving DecidableEq, Repr

/-- The relation that `schema.name` refers to. What follows the name is an alias for it. -/
def Keywords.fromItem (K : Keywords) (text : List Char) : Option Relation :=
  match lexIdent text with
  | some (t, '.' :: rest) =>
    match K.colId t, lexIdent rest with
    | some schema, some (u, []) => some ⟨schema, u.name⟩
    | some schema, some (u, c :: more) =>
      match lexIdent (c :: more) with
      | some (a, []) => if (K.colId a).isSome then some ⟨schema, u.name⟩ else none
      | _ => none
    | _, _ => none
  | _ => none

variable {c : Char} {rest : List Char}

theorem lexQuoted_cons (hc : c ≠ '"') {cs name : List Char} (h : lexQuoted cs = some (name, rest)) :
    lexQuoted (c :: cs) = some (c :: name, rest) := by
  rcases cs with _ | ⟨d, cs⟩
  · simp [lexQuoted] at h
  · simp [lexQuoted, hc, h]

theorem lexQuoted_escaped (hr : rest.head? ≠ some '"') :
    ∀ name : List Char, lexQuoted (name.flatMap escape ++ '"' :: rest) = some (name, rest)
  | [] => by
    rcases rest with _ | ⟨d, rest⟩
    · simp [lexQuoted]
    · have hd : d ≠ '"' := by simpa using hr
      simp [lexQuoted, hd]
  | c :: name => by
    have ih := lexQuoted_escaped hr name
    by_cases hc : c = '"'
    · subst hc
      simp [escape, lexQuoted, ih]
    · rw [List.flatMap_cons, escape, if_neg hc, List.append_assoc]
      exact lexQuoted_cons hc ih

theorem lexIdent_quoteIdentifier {name : List Char} (hn : name ≠ []) (hr : rest.head? ≠ some '"') :
    lexIdent (quoteIdentifier name ++ rest) = some (.quoted name, rest) := by
  have hl := lexQuoted_escaped hr name
  simp [quoteIdentifier, lexIdent, hl, hn]

/-- The characters an unquoted identifier ends before. -/
def Stops (rest : List Char) : Prop := ∀ c ∈ rest.head?, identCont c = false

theorem takeWhile_append_of_stops (hr : Stops rest) :
    ∀ {w : List Char}, (∀ c ∈ w, identCont c = true) →
      (w ++ rest).takeWhile identCont = w ∧ (w ++ rest).dropWhile identCont = rest
  | [], _ => by
    rcases rest with _ | ⟨d, rest⟩
    · exact ⟨rfl, rfl⟩
    · have hd : identCont d = false := hr d rfl
      simp [hd]
  | c :: w, hw => by
    have hc := hw c List.mem_cons_self
    obtain ⟨ht, hd⟩ := takeWhile_append_of_stops hr fun d h => hw d (List.mem_cons_of_mem _ h)
    simp [hc, ht, hd]

/-- The words an unquoted identifier can be written as. -/
structure IsWord (w : List Char) : Prop where
  start : ∃ c ∈ w.head?, identStart c = true
  cont : ∀ c ∈ w, identCont c = true

variable {w : List Char}

theorem IsWord.ne_nil (hw : IsWord w) : w ≠ [] := by
  rintro rfl
  obtain ⟨c, hc, -⟩ := hw.start
  simp at hc

theorem IsWord.append {v : List Char} (hw : IsWord w) (hv : ∀ c ∈ v, identCont c = true) :
    IsWord (w ++ v) := by
  obtain ⟨c, hc, hs⟩ := hw.start
  refine ⟨⟨c, ?_, hs⟩, fun d hd => (List.mem_append.1 hd).elim (hw.cont d) (hv d)⟩
  rcases w with _ | ⟨d, w⟩
  · simp at hc
  · simpa using hc

theorem lexIdent_word (hw : IsWord w) (hr : Stops rest) :
    lexIdent (w ++ rest) = some (.word (w.map fold), rest) := by
  obtain ⟨ht, hd⟩ := takeWhile_append_of_stops hr hw.cont
  obtain ⟨c, hc, hs⟩ := hw.start
  rcases w with _ | ⟨d, w⟩
  · simp at hc
  · obtain rfl : d = c := by simpa using hc
    have hq : d ≠ '"' := by
      rintro rfl
      simp [identStart, isLower, isUpper] at hs
    rw [List.cons_append] at ht hd ⊢
    rw [lexIdent, if_neg hq, if_pos hs, ht, hd]

theorem fold_of_not_upper (h : isUpper c = false) : fold c = c := by
  simp [fold, h]

theorem map_fold_of_not_upper (h : ∀ c ∈ w, isUpper c = false) :
    w.map fold = w := by
  rw [List.map_congr_left fun c hc => fold_of_not_upper (h c hc), List.map_id']

theorem toNat_fold (h : isUpper c = true) : (fold c).toNat = c.toNat + 32 := by
  have hc : c.toNat ≤ 90 := by
    simp only [isUpper, Bool.and_eq_true, decide_eq_true_eq] at h
    exact h.2
  have hv : (c.toNat + 32).isValidChar := Or.inl (by omega)
  rw [fold, if_pos h, Char.ofNat, dif_pos hv]
  rfl

theorem isUpper_fold (c : Char) : isUpper (fold c) = false := by
  by_cases h : isUpper c = true
  · have ht := toNat_fold h
    simp only [isUpper, Bool.and_eq_true, decide_eq_true_eq, Bool.and_eq_false_iff,
      decide_eq_false_iff_not] at h ⊢
    right
    intro hz
    have h1 : 65 ≤ c.toNat := h.1
    have h2 : (fold c).toNat ≤ 90 := hz
    omega
  · rw [fold, if_neg h]
    exact Bool.eq_false_iff.2 h

theorem not_upper_of_map_fold (h : w.map fold = w) :
    ∀ c ∈ w, isUpper c = false := by
  intro c hc
  rw [Bool.eq_false_iff]
  intro hu
  have hf : fold c = c := by
    have := List.map_eq_map_iff.1 (h.trans (List.map_id w).symm) c hc
    exact this
  have := toNat_fold hu
  rw [hf] at this
  omega

theorem isUpper_of_isLower (h : isLower c = true) : isUpper c = false := by
  simp only [isLower, isUpper, Bool.and_eq_true, decide_eq_true_eq, Bool.and_eq_false_iff,
    decide_eq_false_iff_not] at h ⊢
  right
  intro hz
  exact absurd (Char.le_trans h.1 hz) (by decide)

theorem isUpper_of_isNumeral (h : isNumeral c = true) : isUpper c = false := by
  simp only [isNumeral, isUpper, Bool.and_eq_true, decide_eq_true_eq, Bool.and_eq_false_iff,
    decide_eq_false_iff_not] at h ⊢
  left
  intro ha
  exact absurd (Char.le_trans ha h.2) (by decide)

theorem plain_char (h : isLower c = true ∨ isNumeral c = true ∨ c = '_') :
    identCont c = true ∧ isUpper c = false := by
  rcases h with h | h | rfl
  · exact ⟨by simp [identCont, identStart, h], isUpper_of_isLower h⟩
  · exact ⟨by simp [identCont, h], isUpper_of_isNumeral h⟩
  · decide

namespace Keywords

variable (K : Keywords)

theorem isWord_of_bare {name : List Char} (h : K.bare name = true) :
    IsWord name ∧ (∀ c ∈ name, isUpper c = false) ∧ K.quoted name = false := by
  rcases name with _ | ⟨c, cs⟩
  · simp [bare] at h
  · simp only [bare, Bool.and_eq_true, Bool.or_eq_true, beq_iff_eq, List.all_eq_true,
      Bool.not_eq_true', or_assoc] at h
    obtain ⟨⟨hc, hcs⟩, hk⟩ := h
    have hall : ∀ d ∈ c :: cs, identCont d = true ∧ isUpper d = false := by
      intro d hd
      rcases List.mem_cons.1 hd with rfl | hd
      · exact plain_char (hc.imp id Or.inr)
      · exact plain_char (hcs d hd)
    refine ⟨⟨⟨c, rfl, ?_⟩, fun d hd => (hall d hd).1⟩, fun d hd => (hall d hd).2, hk⟩
    rcases hc with hc | rfl
    · simp [identStart, hc]
    · decide

theorem quoteIdent_of_bare {name : List Char} (hb : K.bare name = true) :
    K.quoteIdent name = name := if_pos hb

theorem quoteIdent_of_not_bare {name : List Char} (hb : K.bare name = false) :
    K.quoteIdent name = quoteIdentifier name := if_neg (by simp [hb])

variable {rest : List Char}

theorem lexIdent_quoteIdent {name : List Char} (hn : name ≠ []) (hr : Stops rest)
    (hq : rest.head? ≠ some '"') :
    ∃ t, lexIdent (K.quoteIdent name ++ rest) = some (t, rest) ∧ t.name = truncate name ∧
      K.colId t = some (truncate name) := by
  by_cases hb : K.bare name = true
  · obtain ⟨hw, hu, hk⟩ := K.isWord_of_bare hb
    have hres : K.reserved name = false := by
      rw [Bool.eq_false_iff]
      intro h
      simp [K.quoted_of_reserved _ h] at hk
    refine ⟨.word name, ?_, rfl, by simp [colId, hres]⟩
    rw [K.quoteIdent_of_bare hb, lexIdent_word hw hr, map_fold_of_not_upper hu]
  · refine ⟨.quoted name, ?_, rfl, rfl⟩
    rw [K.quoteIdent_of_not_bare (Bool.eq_false_iff.2 hb), lexIdent_quoteIdentifier hn hq]

theorem fromItem_of_lexIdent {text : List Char} {t u : Token}
    (ht : lexIdent text = some (t, '.' :: rest)) (hu : lexIdent rest = some (u, [])) :
    K.fromItem text = (K.colId t).map fun schema => ⟨schema, u.name⟩ := by
  rcases hc : K.colId t with _ | schema <;> simp [fromItem, ht, hu, hc]

theorem fromItem_of_alias {text more : List Char} {t u : Token} {rel : Relation}
    (ht : lexIdent text = some (t, '.' :: rest)) (hu : lexIdent rest = some (u, more))
    (h : K.fromItem text = some rel) : rel.name = u.name := by
  unfold fromItem at h
  rw [ht] at h
  simp only [hu] at h
  split at h
  · rename_i heq
    obtain ⟨rfl, -⟩ := Prod.mk.inj (Option.some.inj heq)
    rw [← Option.some.inj h]
  · rename_i heq
    obtain ⟨rfl, -⟩ := Prod.mk.inj (Option.some.inj heq)
    split at h
    · split_ifs at h
      rw [← Option.some.inj h]
    · simp at h
  · simp at h

theorem stops_dot (rest : List Char) : Stops ('.' :: rest) := by
  intro c hc
  obtain rfl : '.' = c := by simpa using hc
  decide

theorem stops_nil : Stops [] := by
  intro c hc
  simp at hc

variable {schema name suffix : List Char}

theorem lexIdent_schema (hs : schema ≠ []) (rest : List Char) :
    ∃ t, lexIdent (K.quoteIdent schema ++ '.' :: rest) = some (t, '.' :: rest) ∧
      K.colId t = some (truncate schema) := by
  obtain ⟨t, ht, -, hc⟩ := K.lexIdent_quoteIdent hs (stops_dot rest) (by simp)
  exact ⟨t, ht, hc⟩

theorem fromItem_quoteIdent (hs : schema ≠ []) (hn : name ≠ []) :
    K.fromItem (K.quoteIdent schema ++ '.' :: K.quoteIdent name) =
      some ⟨truncate schema, truncate name⟩ := by
  obtain ⟨t, ht, hc⟩ := K.lexIdent_schema hs (K.quoteIdent name)
  obtain ⟨u, hu, hun, -⟩ := K.lexIdent_quoteIdent hn stops_nil (by simp)
  rw [List.append_nil] at hu
  rw [K.fromItem_of_lexIdent ht hu, hc, hun]
  rfl

theorem fromItem_quoteIdentifier (hs : schema ≠ []) (hn : name ≠ []) :
    K.fromItem (quoteIdentifier schema ++ '.' :: quoteIdentifier name) =
      some ⟨truncate schema, truncate name⟩ := by
  have hu : lexIdent (quoteIdentifier name ++ []) = some (.quoted name, []) :=
    lexIdent_quoteIdentifier hn (by simp)
  rw [List.append_nil] at hu
  rw [K.fromItem_of_lexIdent (lexIdent_quoteIdentifier hs (by simp)) hu]
  rfl

theorem fromItem_word (hs : IsWord schema) (hn : IsWord name) :
    K.fromItem (schema ++ '.' :: name) =
      if K.reserved (schema.map fold) then none
      else some ⟨truncate (schema.map fold), truncate (name.map fold)⟩ := by
  have hu := lexIdent_word hn stops_nil
  rw [List.append_nil] at hu
  rw [K.fromItem_of_lexIdent (lexIdent_word hs (stops_dot name)) hu, colId]
  split_ifs <;> rfl

theorem fromItem_suffix_of_bare (hs : schema ≠ []) (hb : K.bare name = true)
    (hsuf : ∀ c ∈ suffix, identCont c = true ∧ isUpper c = false) :
    K.fromItem (K.quoteIdent schema ++ '.' :: (K.quoteIdent name ++ suffix)) =
      some ⟨truncate schema, truncate (name ++ suffix)⟩ := by
  obtain ⟨hw, hup, -⟩ := K.isWord_of_bare hb
  obtain ⟨t, ht, hc⟩ := K.lexIdent_schema hs (K.quoteIdent name ++ suffix)
  have hu := lexIdent_word (hw.append fun c h => (hsuf c h).1) stops_nil
  rw [List.append_nil, map_fold_of_not_upper fun c h =>
    (List.mem_append.1 h).elim (hup c) fun h => (hsuf c h).2] at hu
  rw [K.quoteIdent_of_bare hb] at ht ⊢
  rw [K.fromItem_of_lexIdent ht hu, hc]
  rfl

theorem fromItem_suffix_of_quoted (hs : schema ≠ []) (hn : name ≠ []) (hb : K.bare name = false)
    (hsuf : suffix.head? ≠ some '"') {rel : Relation}
    (h : K.fromItem (K.quoteIdent schema ++ '.' :: (K.quoteIdent name ++ suffix)) = some rel) :
    rel.name = truncate name := by
  obtain ⟨t, ht, -⟩ := K.lexIdent_schema hs (K.quoteIdent name ++ suffix)
  have hu := lexIdent_quoteIdentifier hn hsuf
  rw [K.quoteIdent_of_not_bare hb] at ht h
  exact K.fromItem_of_alias ht hu h

end Keywords

end SqlIdentifier
