import Orisun.Proofs.Postgres.Numeric
import Orisun.Proofs.Postgres.Predicate

/-!
# All three comparisons select the same events

The documents both backends keep of one text have the same fields, with numbers of one value.
-/

namespace Orisun

/-- A value as SQLite and PostgreSQL keep it. -/
inductive KeptField : Json → Json → Prop where
  | null : KeptField .null .null
  | bool (b : Bool) : KeptField (.bool b) (.bool b)
  | number {token out : String} (htoken : jsonNumberPattern token.toList = true)
      (hout : Postgres.numericIn token = some out) : KeptField (.number token) (.number out)
  | string (s : String) : KeptField (.string s) (.string s)
  | array (items items' : List Json) : KeptField (.array items) (.array items')
  | object (fields fields' : List (String × Json)) : KeptField (.object fields) (.object fields')

theorem keptField_of_text {text : JsonText} {j j' : Json} (h : Sqlite.documentIn text = some j)
    (h' : Postgres.jsonbIn text = some j') : KeptField j j' := by
  unfold Sqlite.documentIn at h
  cases text with
  | null =>
    cases h
    cases h'
    exact .null
  | bool b =>
    cases h
    cases h'
    exact .bool b
  | number token =>
    obtain ⟨out, hout, rfl⟩ := Option.map_eq_some_iff.1 h'
    cases h
    exact .number token.2 hout
  | string units =>
    obtain ⟨cs, hcs, rfl⟩ := Option.map_eq_some_iff.1 h
    obtain ⟨cs', hcs', rfl⟩ := Option.map_eq_some_iff.1 h'
    cases hcs.symm.trans hcs'
    exact .string _
  | array items =>
    obtain ⟨items, -, rfl⟩ := Option.map_eq_some_iff.1 h
    obtain ⟨items', -, rfl⟩ := Option.map_eq_some_iff.1 h'
    exact .array items items'
  | object fields =>
    obtain ⟨fields, -, rfl⟩ := Option.map_eq_some_iff.1 h
    obtain ⟨fields', -, rfl⟩ := Option.map_eq_some_iff.1 h'
    exact .object _ _

theorem forall₂_fieldsIn : ∀ {fields : List (List UInt16 × JsonText)}
    {fs fs' : List (String × Json)},
    documentFieldsIn (fun token => some token.1) fields = some fs →
      Postgres.jsonbFieldsIn fields = some fs' →
      List.Forall₂ (fun f f' => f.1 = f'.1 ∧ KeptField f.2 f'.2) fs fs'
  | [], fs, fs', h, h' => by
    cases h
    cases h'
    exact .nil
  | (key, j) :: fields, fs, fs', h, h' => by
    simp only [documentFieldsIn, Postgres.jsonbFieldsIn, Option.bind_eq_some_iff,
      Option.map_eq_some_iff] at h h'
    obtain ⟨k, hk, v, hv, gs, hgs, rfl⟩ := h
    obtain ⟨k', hk', v', hv', gs', hgs', rfl⟩ := h'
    cases hk.symm.trans hk'
    exact .cons ⟨rfl, keptField_of_text hv hv'⟩ (forall₂_fieldsIn hgs hgs')

theorem rel_lookup {R : Json → Json → Prop} {fs fs' : List (String × Json)}
    (h : List.Forall₂ (fun f f' => f.1 = f'.1 ∧ R f.2 f'.2) fs fs') (key : String) :
    Option.Rel R (fs.lookup key) (fs'.lookup key) := by
  induction h with
  | nil => exact .none
  | @cons f f' fs fs' hf _ ih =>
    obtain ⟨k, v⟩ := f
    obtain ⟨k', v'⟩ := f'
    obtain ⟨rfl : k = k', hv⟩ := hf
    rcases eq_or_ne key k with rfl | hk
    · rw [List.lookup_cons_self, List.lookup_cons_self]
      exact .some hv
    · rw [Fields.lookup_cons_ne v hk, Fields.lookup_cons_ne v' hk]
      exact ih

theorem rel_get? {fields : List (List UInt16 × JsonText)} {sq pg : Json}
    (hsq : Sqlite.documentIn (.object fields) = some sq)
    (hpg : Postgres.jsonbIn (.object fields) = some pg) (key : String) :
    (∃ fs, sq = .object fs) ∧ Option.Rel KeptField (sq.get? key) (pg.get? key) := by
  obtain ⟨fs, hfs, rfl⟩ := Option.map_eq_some_iff.1 hsq
  obtain ⟨fs', hfs', rfl⟩ := Option.map_eq_some_iff.1 hpg
  refine ⟨⟨_, rfl⟩, ?_⟩
  show Option.Rel _ ((Fields.concat [] fs).lookup key) ((Fields.concat [] fs').lookup key)
  rw [Fields.lookup_concat_reverse, Fields.lookup_concat_reverse, List.lookup_nil, Option.or_none,
    Option.or_none]
  exact rel_lookup (List.rel_reverse (forall₂_fieldsIn hfs hfs')) key

section Criterion

variable {key target : String}

theorem encodeCriterion_singleton (op : TagOperator) (key target : String) :
    (encodeCriterion [⟨key, target, op.name⟩]).fields
      = [(key, encodeField [⟨op.name, target⟩])] := by
  have hname : op.name ≠ "" := by cases op <;> decide
  simp [encodeCriterion, tagFields, hname, Fields.insert]

theorem buildCriteriaSQL_singleton (op : TagOperator) (htarget : containsNul target = false) :
    Sqlite.buildCriteriaSQL (encodeCriterion [⟨key, target, op.name⟩])
      = .ok [op.part key target] := by
  unfold Sqlite.buildCriteriaSQL
  rw [encodeCriterion_singleton, List.mergeSort_singleton]
  cases op <;> simp [TagOperator.name, encodeField, Sqlite.renderCriterionPredicate,
    Sqlite.renderTagPredicate, canonicalTagOperator, htarget, TagOperator.part, bind, Except.bind,
    pure, Except.pure]

theorem orisunCriterionSql_singleton (op : TagOperator) :
    Postgres.orisunCriterionSql (encodeCriterion [⟨key, target, op.name⟩])
      = .ok [op.part key target] := by
  unfold Postgres.orisunCriterionSql
  rw [encodeCriterion_singleton]
  cases op <;> simp [TagOperator.name, encodeField, Postgres.isScalarField, Postgres.renderField,
    Postgres.fieldPredicates, Postgres.renderPredicate, TagOperator.part, bind, Except.bind, pure,
    Except.pure]

theorem canonicalTagOperator_name (op : TagOperator) : canonicalTagOperator op.name = some op := by
  cases op <;> rfl

theorem all_singleton (x : Option Bool) : (Ternary.all [x] == some true) = (x == some true) := by
  rw [Bool.eq_iff_iff, beq_iff_eq, beq_iff_eq, Ternary.all_eq_true, List.forall_mem_singleton]

variable {fns : Sqlite.JsonFunctions} {printed : Json → String} {sq pg : Json}

theorem agree_of_eval {op : TagOperator} {b : Bool} (htarget : containsNul target = false)
    (hsqlite : (Sqlite.evalPart fns sq (op.part key target) == some true) = b)
    (hpostgres : (Postgres.evalPartIn pg (op.part key target)).map (· == some true) = .ok b)
    (hgo : matchTagValue (GoValue.ofField printed (sq.get? key)) target op.name = b) :
    Agree fns printed sq pg key target op b where
  sqlite := ⟨_, buildCriteriaSQL_singleton op htarget, (all_singleton _).trans hsqlite⟩
  postgres := by
    refine ⟨_, orisunCriterionSql_singleton op, ?_⟩
    rcases heval : Postgres.evalPartIn pg (op.part key target) with e | x
    · rw [heval] at hpostgres
      cases hpostgres
    · rw [heval] at hpostgres
      rw [← hpostgres, Postgres.selectsIn, List.mapM_cons, heval]
      exact congrArg Except.ok (all_singleton x)
  go := hgo

theorem compareText_eq (s t : String) :
    compareText s t = Decimal.sign (Utf8.bytes s.toList) (Utf8.bytes t.toList) := by
  simp only [compareText, Decimal.sign, Utf8.bytes_lt_bytes_iff, String.lt_iff_toList_lt]

theorem any_holds (op : OrderOperator) (c : Option ℤ) :
    (c.map op.holds == some true) = c.any op.holds := by
  rcases c with _ | c
  · rfl
  · rcases h : op.holds c <;> simp [h]

variable {fs : List (String × Json)}

theorem member_of_documented (hfns : fns.Documented) (fs : List (String × Json))
    (hkey : PlainKey key) : fns.member (.object fs) key = fs.lookup key := by
  rw [Sqlite.JsonFunctions.member, hfns.lookup fs key hkey]

theorem evalPart_sqlite_order (hfns : fns.Documented) (hkey : PlainKey key) (op : OrderOperator) :
    (Sqlite.evalPart fns (.object fs) (.order key op target) == some true)
      = op.Matches ((Json.object fs).get? key) target := by
  have hmember := member_of_documented hfns fs hkey
  show _ = op.Matches (fs.lookup key) target
  simp only [Sqlite.evalPart, Sqlite.scalarText, hmember]
  rcases fs.lookup key with _ | (_ | _ | token | s | _ | _)
  · rfl
  · rfl
  · rfl
  · simp only [compareJSONNumbers_eq]
    exact any_holds op _
  · simp only [hfns.string, compareText_eq]
    exact any_holds op (some _)
  · rfl
  · rfl

theorem matchTagValue_order (op : OrderOperator) (field : Option Json) :
    matchTagValue (GoValue.ofField printed field) target op.tag.name = op.Matches field target := by
  have hmatch : ∀ value : GoValue, value ≠ .nil →
      matchTagValue value target op.tag.name = (compareTagValue value target).any op.holds := by
    intro value hvalue
    unfold matchTagValue
    rw [canonicalTagOperator_name]
    cases op <;> simp [OrderOperator.tag, hvalue]
  have hnil : matchTagValue .nil target op.tag.name = false := by
    cases op <;> rfl
  rcases field with _ | (_ | _ | token | s | _ | _)
  · exact hnil
  · exact hnil
  · exact hmatch _ (by simp [GoValue.ofField])
  · refine (hmatch _ (by simp [GoValue.ofField])).trans ?_
    show (compareJSONNumbers token target).any op.holds = _
    rw [compareJSONNumbers_eq]
    rfl
  · refine (hmatch (.string s) (by simp)).trans ?_
    show (some (compareText s target)).any op.holds = _
    rw [compareText_eq]
    rfl
  · exact hmatch _ (by simp [GoValue.ofField])
  · exact hmatch _ (by simp [GoValue.ofField])

theorem orisunCompareNumberIn_eq {token out : String} (htoken : jsonNumberPattern token.toList = true)
    (hout : Postgres.numericIn token = some out)
    (hfits : jsonNumberPattern target.toList = true → Postgres.numericFits target = true) :
    Postgres.orisunCompareNumberIn out target = .ok (compareField (some (.number token)) target) := by
  have hvalue := Postgres.numberValue_numericIn htoken hout
  have hpattern : jsonNumberPattern out.toList = true := by
    obtain ⟨p, -, -, hp⟩ := exists_parts htoken
    rw [hp] at hvalue
    by_contra hnot
    rw [(decimalParts_eq_none (Bool.eq_false_iff.2 hnot)).2] at hvalue
    cases hvalue
  unfold Postgres.orisunCompareNumberIn
  rw [hpattern, Postgres.numericFits_numericIn htoken hout, orisunCompareNumber_eq, hvalue]
  rcases htarget : jsonNumberPattern target.toList with _ | _
  · rw [compareField, (decimalParts_eq_none htarget).2]
    rcases numberValue token <;> rfl
  · rw [hfits htarget]
    rfl

theorem evalPartIn_order {op : OrderOperator}
    (hfits : jsonNumberPattern target.toList = true → Postgres.numericFits target = true)
    (hrel : Option.Rel KeptField (sq.get? key) (pg.get? key)) :
    (Postgres.evalPartIn pg (.order key op target)).map (· == some true)
      = .ok (op.Matches (sq.get? key) target) := by
  generalize sq.get? key = field at hrel
  rcases hp : pg.get? key with _ | j' <;> rw [hp] at hrel
  · cases hrel
    simp only [Postgres.evalPartIn, Postgres.evalPart, hp]
    rfl
  · cases hrel with
    | some hkept =>
      cases hkept with
      | number htoken hout =>
        simp only [Postgres.evalPartIn, hp]
        rw [orisunCompareNumberIn_eq htoken hout hfits]
        exact congrArg Except.ok (any_holds op _)
      | string s =>
        simp only [Postgres.evalPartIn, Postgres.evalPart, Json.getText?, hp, compareText_eq]
        exact congrArg Except.ok (any_holds op (some _))
      | _ =>
        simp only [Postgres.evalPartIn, Postgres.evalPart, hp]
        rfl

variable {j : Json} {text : String}

theorem evalPart_sqlite_text (hfns : fns.Documented) (hkey : PlainKey key)
    (hfield : (Json.object fs).get? key = some j) (htext : EqualityText j text) :
    Sqlite.scalarText fns (.object fs) key = some text := by
  have hmember : fns.member (.object fs) key = some j := (member_of_documented hfns fs hkey).trans hfield
  unfold Sqlite.scalarText
  rw [hmember]
  cases htext with
  | string => exact hfns.string _
  | bool b => cases b <;> rfl
  | int64 n hlow hhigh => exact hfns.integer n hlow hhigh

theorem getText?_text (hrel : Option.Rel KeptField (sq.get? key) (pg.get? key))
    (hfield : sq.get? key = some j) (htext : EqualityText j text) :
    pg.getText? key = some text := by
  rcases hp : pg.get? key with _ | j' <;> rw [hfield, hp] at hrel
  · cases hrel
  · unfold Json.getText?
    rw [hp]
    cases hrel with
    | some hkept =>
      cases htext with
      | string s =>
        cases hkept
        rfl
      | bool b =>
        cases hkept
        cases b <;> rfl
      | int64 n hlow hhigh =>
        cases hkept with
        | number htoken hout =>
          have hsmall : n.natAbs < 10 ^ 19 := by omega
          rw [Postgres.numericIn_toString hsmall] at hout
          cases hout
          exact congrArg some (Postgres.number_text _)

theorem eventTagEquals_text (htext : EqualityText j text) :
    GoValue.ofField printed (some j) ≠ .nil ∧
      eventTagEquals (GoValue.ofField printed (some j)) target = (text == target) := by
  cases htext with
  | string => exact ⟨by simp [GoValue.ofField], rfl⟩
  | bool b =>
    refine ⟨by simp [GoValue.ofField], ?_⟩
    cases b
    · exact Bool.beq_comm
    · exact Bool.beq_comm
  | int64 => exact ⟨by simp [GoValue.ofField], rfl⟩

theorem agree_equality (hfns : fns.Documented) (hkey : PlainKey key)
    (htarget : containsNul target = false)
    (hrel : Option.Rel KeptField ((Json.object fs).get? key) (pg.get? key))
    (hfield : (Json.object fs).get? key = some j) (htext : EqualityText j text) :
    Agree fns printed (.object fs) pg key target .eq (text == target) ∧
      Agree fns printed (.object fs) pg key target .ne (text != target) := by
  have hsqlite := evalPart_sqlite_text hfns hkey hfield htext
  have hpostgres := getText?_text hrel hfield htext
  obtain ⟨hnil, hequals⟩ := @eventTagEquals_text target printed j text htext
  constructor
  · refine agree_of_eval htarget ?_ ?_ ?_
    · simp [TagOperator.part, Sqlite.evalPart, hsqlite]
    · simp [TagOperator.part, Postgres.evalPartIn, Postgres.evalPart, hpostgres, Except.map]
    · rw [hfield, matchTagValue, canonicalTagOperator_name]
      simp only [hnil, if_false, hequals]
  · refine agree_of_eval htarget ?_ ?_ ?_
    · simp [TagOperator.part, Sqlite.evalPart, hsqlite]
    · simp [TagOperator.part, Postgres.evalPartIn, Postgres.evalPart, hpostgres, Except.map]
    · rw [hfield, matchTagValue, canonicalTagOperator_name]
      simp only [hnil, if_false, hequals]
      rfl

theorem agree_absent (hfns : fns.Documented) (hkey : PlainKey key)
    (htarget : containsNul target = false)
    (hrel : Option.Rel KeptField ((Json.object fs).get? key) (pg.get? key))
    (hfield : (Json.object fs).get? key = none ∨ (Json.object fs).get? key = some .null) :
    Agree fns printed (.object fs) pg key target .eq false ∧
      Agree fns printed (.object fs) pg key target .ne false := by
  have hsqlite : Sqlite.scalarText fns (.object fs) key = none := by
    have hmember := member_of_documented hfns fs hkey
    unfold Sqlite.scalarText
    rcases hfield with hf | hf
    · rw [hmember.trans hf]
    · rw [hmember.trans hf]
      exact hfns.null
  have hpostgres : pg.getText? key = none := by
    rcases hp : pg.get? key with _ | j'
    · rw [Json.getText?, hp]
    · rw [Json.getText?, hp]
      rw [hp] at hrel
      rcases hfield with hf | hf <;> rw [hf] at hrel
      · cases hrel
      · cases hrel with
        | some hkept =>
          cases hkept
          rfl
  have hgo : GoValue.ofField printed ((Json.object fs).get? key) = .nil := by
    rcases hfield with hf | hf <;> rw [hf] <;> rfl
  constructor
  · refine agree_of_eval htarget ?_ ?_ (by rw [hgo]; rfl)
    · simp [TagOperator.part, Sqlite.evalPart, hsqlite]
    · simp [TagOperator.part, Postgres.evalPartIn, Postgres.evalPart, hpostgres, Except.map]
  · refine agree_of_eval htarget ?_ ?_ (by rw [hgo]; rfl)
    · simp [TagOperator.part, Sqlite.evalPart, hsqlite]
    · simp [TagOperator.part, Postgres.evalPartIn, Postgres.evalPart, hpostgres, Except.map]

/-- Both backends and Go agree on every field: by order on any, by equality on strings, booleans
and canonical integers, and on no value of a missing or null field. -/
theorem backends_agree (hfns : fns.Documented) (printed : Json → String)
    {fields : List (List UInt16 × JsonText)} (hsq : Sqlite.documentIn (.object fields) = some sq)
    (hpg : Postgres.jsonbIn (.object fields) = some pg) (hkey : PlainKey key)
    (htarget : containsNul target = false) :
    ((jsonNumberPattern target.toList = true → Postgres.numericFits target = true) →
      ∀ op : OrderOperator,
        Agree fns printed sq pg key target op.tag (op.Matches (sq.get? key) target)) ∧
    (∀ j text, sq.get? key = some j → EqualityText j text →
      Agree fns printed sq pg key target .eq (text == target) ∧
        Agree fns printed sq pg key target .ne (text != target)) ∧
    (sq.get? key = none ∨ sq.get? key = some .null →
      Agree fns printed sq pg key target .eq false ∧
        Agree fns printed sq pg key target .ne false) := by
  obtain ⟨⟨fs, rfl⟩, hrel⟩ := rel_get? hsq hpg key
  refine ⟨fun hfits op => ?_, fun j text hfield htext =>
    agree_equality hfns hkey htarget hrel hfield htext, agree_absent hfns hkey htarget hrel⟩
  have hpart : op.tag.part key target = .order key op target := by cases op <;> rfl
  refine agree_of_eval htarget ?_ ?_ (matchTagValue_order op _)
  · rw [hpart]
    exact evalPart_sqlite_order hfns hkey op
  · rw [hpart]
    exact evalPartIn_order hfits hrel

end Criterion

def documentedFunctions : Sqlite.JsonFunctions where
  lookup j key := .ok (j.get? key)
  castText
    | .null => none
    | .string s => some s
    | j => some j.text
  visits _ _ := []
  visits_mem := Sqlite.noVisits_mem

theorem documented_documentedFunctions : documentedFunctions.Documented where
  lookup _ _ _ := rfl
  null := rfl
  string _ := rfl
  integer _ _ _ := congrArg some (Postgres.number_text _)

def sampleText : JsonText := .object [([110], .number ⟨"9007199254740993", by decide⟩)]

theorem backends_agree_sample : ∃ sq pg, Sqlite.documentIn sampleText = some sq ∧
    Postgres.jsonbIn sampleText = some pg ∧
    Agree documentedFunctions (fun _ => "") sq pg "n" "9007199254740992" .gt
      (OrderOperator.gt.Matches (sq.get? "n") "9007199254740992") ∧
    OrderOperator.gt.Matches (sq.get? "n") "9007199254740992" = true := by
  have hsq : (Sqlite.documentIn sampleText).any
      (fun sq => OrderOperator.gt.Matches (sq.get? "n") "9007199254740992") = true := by
    decide +kernel
  have hpg : (Postgres.jsonbIn sampleText).isSome = true := by decide +kernel
  obtain ⟨sq, hsq, hmatches⟩ := (Option.any_eq_true _ _).1 hsq
  obtain ⟨pg, hpg⟩ := Option.isSome_iff_exists.1 hpg
  have hkey : PlainKey "n" := by decide
  have htarget : containsNul "9007199254740992" = false := by decide
  have hfits : Postgres.numericFits "9007199254740992" = true := by decide +kernel
  have hagree := (backends_agree documented_documentedFunctions (fun _ => "") hsq hpg hkey
    htarget).1 (fun _ => hfits) .gt
  exact ⟨sq, pg, hsq, hpg, hagree, hmatches⟩

def nines (n : ℕ) : NumberText := ⟨false, ['1'], [], 'e' :: List.replicate n '9'⟩

section Nines

variable {n : ℕ}

theorem isDigit_nines : ∀ c ∈ List.replicate n '9', isDigit c = true := fun c hc => by
  rw [List.eq_of_mem_replicate hc]
  decide

theorem valid_nines (h : 0 < n) : (nines n).Valid where
  whole := .inr ⟨'1', [], rfl, by decide, by decide, by simp⟩
  fraction := by simp [nines]
  exponent := by
    obtain ⟨m, rfl⟩ : ∃ m, n = m + 1 := ⟨n - 1, by omega⟩
    show (true && !(List.replicate (m + 1) '9').isEmpty && (List.replicate (m + 1) '9').all isDigit)
      = true
    simp [show isDigit '9' = true by decide]

theorem exponentValue_nines (h : 0 < n) : exponentValue (nines n).exponent.tail = 10 ^ n - 1 := by
  obtain ⟨m, rfl⟩ : ∃ m, n = m + 1 := ⟨n - 1, by omega⟩
  have hvalue : exponentValue (nines (m + 1)).exponent.tail
      = digitsValue (List.replicate (m + 1) '9') := rfl
  have hnine : ∀ k, (List.replicate k '9').map digit = List.replicate k 9 := fun k =>
    List.map_replicate
  rw [hvalue, digitsValue_eq, hnine, ← Nat.cast_one (R := ℤ), eq_sub_iff_add_eq]
  exact_mod_cast Decimal.value_replicate_nine (m + 1)

theorem exponentFits_nines : Postgres.exponentFits (String.ofList (nines n).chars)
    = decide (n ≤ Postgres.maxNumericDigits) := by
  have hchars : (nines n).chars = '1' :: 'e' :: List.replicate n '9' := rfl
  have hdrop : (List.replicate n '9').dropWhile (· == '0') = List.replicate n '9' := by
    cases n <;> rfl
  unfold Postgres.exponentFits
  rw [String.toList_ofList, hchars]
  show decide ((((List.replicate n '9').filter isDigit).dropWhile (· == '0')).length
    ≤ Postgres.maxNumericDigits) = _
  rw [List.filter_eq_self.2 isDigit_nines, hdrop, List.length_replicate]

theorem one_lt_value_nines (h : 0 < n) : 1 < (nines n).value := by
  have hexponent : 0 < exponentValue (nines n).exponent.tail := by
    rw [exponentValue_nines h]
    have hpow : (1 : ℤ) < 10 ^ n := one_lt_pow₀ (by norm_num) (by omega)
    omega
  have hvalue : (nines n).value = (1 : ℕ) * 10 ^ (exponentValue (nines n).exponent.tail - 0) := rfl
  rw [hvalue, Nat.cast_one, one_mul, sub_zero]
  exact one_lt_zpow₀ (by norm_num) hexponent

theorem compareJSONNumbers_nines (h : 0 < n) :
    compareJSONNumbers "1" (String.ofList (nines n).chars) = some (-1) := by
  have hone : numberValue "1" = some 1 := by decide +kernel
  rw [compareJSONNumbers_eq, hone, (valid_nines h).numberValue, Option.bind_some,
    Option.bind_some, Decimal.sign_of_lt (one_lt_value_nines h)]

theorem orisunCompareNumberIn_nines (h : 0 < n)
    (hfits : Postgres.numericFits (String.ofList (nines n).chars) = false) :
    Postgres.orisunCompareNumberIn "1" (String.ofList (nines n).chars)
      = .error .numericOutOfRange := by
  have hpattern : jsonNumberPattern "1".toList = true := by decide
  have hone : Postgres.numericFits "1" = true := by decide +kernel
  unfold Postgres.orisunCompareNumberIn
  rw [hpattern, hone, String.toList_ofList, (valid_nines h).jsonNumberPattern, hfits]
  rfl

end Nines

/-- A value with a NUL byte is not rendered, and one whose exponent is too long for `numeric`
raises; Go compares both. -/
theorem backends_differ :
    (Sqlite.buildCriteriaSQL (encodeCriterion [⟨"n", "b\x00", "lt"⟩]) = .error .valueNul ∧
      matchTagValue (.string "b") "b\x00" "lt" = true) ∧
    ∃ target, (∃ parts, Postgres.orisunCriterionSql (encodeCriterion [⟨"n", target, "lt"⟩])
        = .ok parts ∧
          Postgres.selectsIn parts (.object [("n", .number "1")]) = .error .numericOutOfRange) ∧
      matchTagValue (.number "1") target "lt" = true := by
  obtain ⟨n, hn⟩ : ∃ n, Postgres.maxNumericDigits < n := ⟨_, Nat.lt_succ_self _⟩
  have hfits : Postgres.numericFits (String.ofList (nines n).chars) = false := by
    rw [Postgres.numericFits, exponentFits_nines, decide_eq_false hn.not_ge, Bool.false_and]
  have hsql := orisunCompareNumberIn_nines (Nat.zero_lt_of_lt hn) hfits
  have hgo := compareJSONNumbers_nines (Nat.zero_lt_of_lt hn)
  generalize String.ofList (nines n).chars = target at hsql hgo
  refine ⟨⟨by decide +kernel, by decide +kernel⟩, target,
    ⟨_, orisunCriterionSql_singleton .lt, ?_⟩, ?_⟩
  · have heval : Postgres.evalPartIn (.object [("n", .number "1")])
        (TagOperator.lt.part "n" target) = .error .numericOutOfRange := by
      have hget : (Json.object [("n", .number "1")]).get? "n" = some (.number "1") := rfl
      simp only [TagOperator.part, Postgres.evalPartIn, hget, hsql]
      rfl
    rw [Postgres.selectsIn, List.mapM_cons, heval]
    rfl
  · show (compareJSONNumbers "1" target).any OrderOperator.lt.holds = true
    rw [hgo]
    rfl

end Orisun
