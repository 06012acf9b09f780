import Orisun.Proofs.Sqlite.CriteriaText
import Orisun.Sqlite.TagPath

/-!
# A key addresses its field if it has no quote and no backslash

The comparison of a tag is evaluated on what its path leads to. The path of a key doubles the quotes
of the key, where a label would have them escaped, and takes its backslashes for escapes.
-/

namespace Orisun.Sqlite

open CriteriaText SqlText

variable {castText : Json → Option String} {doc : Json}

theorem pathText_eq (key : String) : pathText key = JsonPath.doubledPath key.toList := by
  simp [pathText, JsonPath.doubledPath, JsonPath.doubled, toList_doubled]

section Part

variable {key : String} {v : Option Json}

theorem eval_data : eval castText doc data = some (.json doc) := by
  rw [data, eval_word]
  exact if_pos rfl

theorem eval_string (s : String) : eval castText doc (.string s.toList) = some (.text s) := by
  rw [eval_literal, String.ofList_toList]

theorem eval_pathExpr :
    eval castText doc (pathExpr key) = some (.text (String.ofList (pathText key))) :=
  eval_literal _

theorem onPath_of_ok (h : (onPaths castText).lookup doc key = .ok v) (f : Json → Value) :
    onPath doc (String.ofList (pathText key)) f = some ((v.map f).getD .null) := by
  have hwalk : JsonPath.walk access doc (pathText key) = .ok v := by
    rw [pathText_eq]
    exact h
  rw [onPath, String.toList_ofList, hwalk]

theorem onPath_of_error {e : JsonPath.PathError}
    (h : (onPaths castText).lookup doc key = .error e) (f : Json → Value) :
    onPath doc (String.ofList (pathText key)) f = none := by
  have hwalk : JsonPath.walk access doc (pathText key) = .error e := by
    rw [pathText_eq]
    exact h
  rw [onPath, String.toList_ofList, hwalk]

@[simp] theorem castText_onPaths : (onPaths castText).castText = castText := rfl

theorem member_of_ok (h : (onPaths castText).lookup doc key = .ok v) :
    (onPaths castText).member doc key = v := by
  rw [JsonFunctions.member, h]

theorem evalArgs_path : evalArgs castText doc [data, pathExpr key]
    = some [.json doc, .text (String.ofList (pathText key))] := by
  rw [evalArgs_pair, eval_data, Option.bind_some, eval_pathExpr, Option.map_some]

theorem eval_typeExpr : eval castText doc (typeExpr key)
    = onPath doc (String.ofList (pathText key)) fun v => .text (jsonType v) := by
  rw [typeExpr, eval_call, evalArgs_path, Option.bind_some, callFunction, if_pos rfl]

theorem eval_extract : eval castText doc (.call "json_extract".toList [data, pathExpr key])
    = onPath doc (String.ofList (pathText key)) .json := by
  rw [eval_call, evalArgs_path, Option.bind_some, callFunction, if_neg (by decide), if_pos rfl]

theorem evalArms_text {s t : String} {e : Expr} {arms : List (Expr × Expr)} {d : Option Value} :
    evalArms castText doc (.text s) d ((.string t.toList, e) :: arms)
      = if s = t then eval castText doc e else evalArms castText doc (.text s) d arms := by
  rw [evalArms_cons, eval_string, Option.bind_some, Value.equal, Option.bind_some]
  by_cases hst : s = t
  · simp [hst]
  · simp [hst]

theorem evalArms_null {t : String} {e : Expr} {arms : List (Expr × Expr)} {d : Option Value} :
    evalArms castText doc .null d ((.string t.toList, e) :: arms)
      = evalArms castText doc .null d arms := by
  rw [evalArms_cons, eval_string, Option.bind_some, Value.equal, Option.bind_some]
  rfl

theorem jsonType_number (token : String) :
    jsonType (.number token) = "integer" ∨ jsonType (.number token) = "real" := by
  unfold jsonType
  dsimp only
  split_ifs
  · exact .inl rfl
  · exact .inr rfl

theorem eval_scalarExpr (h : (onPaths castText).lookup doc key = .ok v) :
    eval castText doc (scalarExpr key)
      = some (((scalarText (onPaths castText) doc key).map .text).getD .null) := by
  have hcast : eval castText doc (.cast (.call "json_extract".toList [data, pathExpr key])
      (.word "TEXT".toList)) = some (castValue castText ((v.map .json).getD .null)) := by
    rw [eval_cast, eval_extract, onPath_of_ok h]
    rfl
  rw [scalarExpr, eval_caseOf, eval_typeExpr, onPath_of_ok h, Option.bind_some,
    evalOtherwise_some, hcast]
  simp only [scalarText, member_of_ok h]
  rcases v with _ | v
  · rw [Option.map_none, Option.getD_none, evalArms_null, evalArms_null, evalArms_nil]
    rfl
  · rw [Option.map_some, Option.getD_some, evalArms_text, evalArms_text, evalArms_nil, eval_string,
      eval_string]
    rcases v with _ | (_ | _) | token | s | items | fields
    case number =>
      rcases jsonType_number token with ht | ht <;> simp [ht, castValue]
    all_goals simp [jsonType, castValue]

theorem eval_zero : eval castText doc zero = some (.integer 0) := by
  rw [zero, eval_word, evalWord, if_neg (by decide), if_pos rfl]

theorem applyOperator_order (op : OrderOperator) (a b : Value) :
    applyOperator (orderOperator op) a b = (a.compare b).map fun c => .ofTruth (c.map op.holds) := by
  cases op <;> rfl

theorem orderOperator_ne (op : OrderOperator) : orderOperator op ≠ .collate := by
  cases op <;> decide

theorem eval_numberExpr {token : String} (h : (onPaths castText).lookup doc key = .ok v)
    (hs : v = some (.number token)) (op : OrderOperator) (target : String) :
    eval castText doc (numberExpr key op target)
      = some (.ofTruth ((compareJSONNumbers token target).map op.holds)) := by
  have harrow : eval castText doc (.binary .arrow data (pathExpr key)) = some (.text token) := by
    have htext : (Json.number token).text = token := String.ofList_toList
    rw [eval_binary (by decide), eval_data, Option.bind_some, eval_pathExpr, Option.bind_some]
    show onPath doc (String.ofList (pathText key)) (fun v => .text v.text) = _
    rw [onPath_of_ok h, hs, Option.map_some, htext]
    rfl
  have hcall : eval castText doc (.call "orisun_compare_number".toList
        [.binary .arrow data (pathExpr key), .string target.toList])
      = some (((compareJSONNumbers token target).map .integer).getD .null) := by
    rw [eval_call, evalArgs_pair, harrow, Option.bind_some, eval_string, Option.map_some,
      Option.bind_some, callFunction, if_pos rfl]
  rw [numberExpr, eval_paren, eval_binary (orderOperator_ne op), hcall, Option.bind_some, eval_zero,
    Option.bind_some, applyOperator_order]
  rcases compareJSONNumbers token target with _ | c
  · rfl
  · simp [Value.compare]

theorem eval_textExpr (h : (onPaths castText).lookup doc key = .ok v) (op : OrderOperator)
    (target : String) :
    eval castText doc (.paren (.binary (orderOperator op)
        (.binary .collate (scalarExpr key) (.word "BINARY".toList)) (.string target.toList)))
      = some (.ofTruth ((scalarText (onPaths castText) doc key).map
          fun s => op.holds (compareText s target))) := by
  rw [eval_paren, eval_binary (orderOperator_ne op), eval_collate, eval_scalarExpr h, Option.bind_some,
    eval_string, Option.bind_some, applyOperator_order]
  rcases scalarText (onPaths castText) doc key with _ | s
  · rfl
  · rfl

theorem eval_partExpr (h : (onPaths castText).lookup doc key = .ok v) (op : TagOperator)
    (target : String) :
    eval castText doc (partExpr (op.part key target))
      = some (.ofTruth (evalPart (onPaths castText) doc (op.part key target))) := by
  have horder : ∀ op : OrderOperator, eval castText doc (partExpr (.order key op target))
      = some (.ofTruth (evalPart (onPaths castText) doc (.order key op target))) := by
    intro op
    rw [partExpr, eval_paren, eval_caseOf, eval_typeExpr, onPath_of_ok h, Option.bind_some,
      evalOtherwise_some, eval_zero, evalPart]
    rw [member_of_ok h]
    rcases hs : v with _ | w
    · rw [Option.map_none, Option.getD_none, evalArms_null, evalArms_null, evalArms_null,
        evalArms_nil]
      rfl
    · rw [Option.map_some, Option.getD_some, evalArms_text, evalArms_text, evalArms_text,
        evalArms_nil, eval_textExpr h]
      rcases w with _ | (_ | _) | token | s | items | fields
      case number =>
        have hnumber : eval castText doc (numberExpr key op target)
            = some (.ofTruth ((compareJSONNumbers token target).map op.holds)) :=
          eval_numberExpr h hs op target
        rcases jsonType_number token with ht | ht <;> simp [ht, hnumber]
      case string => simp [jsonType]
      all_goals simp [jsonType, Value.ofTruth]
  cases op
  case eq =>
    rw [TagOperator.part, partExpr, eval_binary (by decide), eval_scalarExpr h, Option.bind_some,
      eval_string, Option.bind_some, evalPart]
    rcases scalarText (onPaths castText) doc key with _ | s <;> rfl
  case ne =>
    rw [TagOperator.part, partExpr, eval_binary (by decide), eval_scalarExpr h, Option.bind_some,
      eval_string, Option.bind_some, evalPart]
    rcases scalarText (onPaths castText) doc key with _ | s <;> rfl
  all_goals exact horder _

theorem eval_partExpr_malformed {e : JsonPath.PathError}
    (h : (onPaths castText).lookup doc key = .error e) (op : TagOperator) (target : String) : eval castText doc (partExpr (op.part key target)) = none := by
  have htype : eval castText doc (typeExpr key) = none := by
    rw [eval_typeExpr, onPath_of_error h]
  have hscalar : eval castText doc (scalarExpr key) = none := by
    rw [scalarExpr, eval_caseOf, htype]
    rfl
  have horder : ∀ op : OrderOperator, eval castText doc (partExpr (.order key op target)) = none := by
    intro op
    rw [partExpr, eval_paren, eval_caseOf, htype]
    rfl
  cases op
  case eq => rw [TagOperator.part, partExpr, eval_binary (by decide), hscalar, Option.bind_none]
  case ne => rw [TagOperator.part, partExpr, eval_binary (by decide), hscalar, Option.bind_none]
  all_goals exact horder _

end Part

theorem fields_single (tag : ReadTag) :
    (encodeCriterion [tag]).fields = [(tag.key, encodeField [tag.encoded])] := rfl

theorem eval_whereExpr_single (tag : ReadTag) :
    eval castText doc (whereExpr (textFields [⟨[tag]⟩]))
      = eval castText doc (partExpr (tagPart tag)) := by
  have hfields : textFields [⟨[tag]⟩] = [[(tag.key, encodeField [tag.encoded])]] := by
    rw [textFields, encodeReadCriteria, List.map_singleton, List.map_singleton, sortedFields,
      fields_single, List.mergeSort_singleton]
  have hfield : eval castText doc (CriteriaText.fieldExpr tag.key (encodeField [tag.encoded]))
      = eval castText doc (partExpr (tagPart tag)) := by
    rw [← predicatePart_encoded]
    unfold encodeField
    split
    · rename_i value he
      obtain ⟨he, -⟩ := List.cons.inj he
      rw [he]
      rfl
    · rw [CriteriaText.fieldExpr, eval_paren]
      rfl
  rw [hfields, ← hfield]
  exact eval_paren _

theorem validateTag_ok {tag : ReadTag} (h : validateTag tag = .ok ()) :
    containsNul tag.key = false ∧ containsNul tag.value = false ∧
      ∃ op, canonicalTagOperator tag.operator = some op := by
  unfold validateTag at h
  split_ifs at h with h1 h2 h3
  simp only [Bool.or_eq_true, not_or, Bool.not_eq_true] at h2
  exact ⟨h2.1, h2.2, Option.ne_none_iff_exists'.1 (by simpa using h3)⟩

theorem evalText_tag {tag : ReadTag} (h : validateTag tag = .ok ()) :
    ∃ text, CriteriaText.buildCriteriaSQL (encodeReadCriteria [⟨[tag]⟩]) = .ok text ∧
      ∀ castText doc, evalText castText doc text = eval castText doc (partExpr (tagPart tag)) := by
  obtain ⟨hkey, hvalue, op, hop⟩ := validateTag_ok h
  have hexists : ∃ text, CriteriaText.buildCriteriaSQL (encodeReadCriteria [⟨[tag]⟩]) = .ok text :=
    (exists_text (by simpa using hvalue)).2 (by simp [hop])
  obtain ⟨text, htext⟩ := hexists
  have hkeys : ∀ c ∈ [(⟨[tag]⟩ : ReadCriterion)], ∀ t ∈ c.tags, containsNul t.key = false := by
    simpa using hkey
  obtain ⟨hnul, ts, hscans, hexpr⟩ := text_parses hkeys htext
  refine ⟨text, htext, fun castText doc => ?_⟩
  rw [evalText, hscans.tokens hnul, Option.bind_some, hexpr, Option.bind_some,
    eval_whereExpr_single]

def carrier (key : String) (value : Json) : Json := .object [(key, value)]

variable {key : String}

theorem evalPart_congr {fns fns' : JsonFunctions} {op : TagOperator} {target : String}
    (hmember : fns.member doc key = fns'.member doc key) (hcast : fns.castText = fns'.castText) :
    evalPart fns doc (op.part key target) = evalPart fns' doc (op.part key target) := by
  have hscalar : scalarText fns doc key = scalarText fns' doc key := by
    rw [scalarText, scalarText, hmember, hcast]
  cases op <;> simp only [TagOperator.part, evalPart, hmember, hscalar]

theorem lookup_of_plain (h : '"' ∉ key.toList ∧ '\\' ∉ key.toList) (doc : Json) :
    (onPaths castText).lookup doc key = .ok (doc.get? key) := by
  refine (JsonPath.walk_of_plain h.1 h.2).trans ?_
  show Except.ok (doc.get? (String.ofList key.toList)) = _
  rw [String.ofList_toList]

theorem ofTruth_injective : Function.Injective Value.ofTruth := by
  rintro (_ | _ | _) (_ | _ | _) h <;> first | rfl | cases h

/-- A value that the comparison tells from a missing one. -/
def distinguished (target : String) : TagOperator → Json
  | .eq | .ne => .string ""
  | .gt => .string (target ++ "0")
  | .gte | .lte => .string target
  | .lt => if target = "" then .number "0" else .string ""

/-- The path of a key with a quote or a backslash does not lead to the key's field. -/
theorem lookup_carrier (h : '"' ∈ key.toList ∨ '\\' ∈ key.toList) (target : String)
    (op : TagOperator) (x : Json) :
    (onPaths castText).lookup (carrier key (distinguished target op)) key ≠ .ok (some x) := by
  refine JsonPath.walk_ne_of_special (v := distinguished target op) h (fun label => ?_)
    (fun label => ?_) ?_ x
  · show List.lookup _ _ = _
    by_cases hl : label = key.toList
    · subst hl
      rw [String.ofList_toList, if_pos rfl, List.lookup_cons_self]
    · have hne : String.ofList label ≠ key := fun he => hl (by rw [← he, String.toList_ofList])
      rw [if_neg hl, Fields.lookup_cons_ne _ hne]
      rfl
  · cases op <;> try rfl
    rw [distinguished]
    split_ifs <;> rfl
  · cases op <;> try rfl
    rw [distinguished]
    split_ifs <;> rfl

theorem lt_concat (c : Char) : ∀ l : List Char, l < l ++ [c]
  | [] => List.nil_lt_cons c []
  | _ :: l => List.cons_lt_cons_iff.2 (.inr ⟨rfl, lt_concat c l⟩)

def stringText : Json → Option String
  | .string s => some s
  | _ => none

theorem evalPart_missing {fns : JsonFunctions} {target : String} {op : TagOperator}
    (h : fns.member doc key = none) : evalPart fns doc (op.part key target)
      = if op = .eq ∨ op = .ne then none else some false := by
  have hscalar : scalarText fns doc key = none := by
    rw [scalarText, h]
  cases op <;> simp [TagOperator.part, evalPart, h, hscalar]

theorem evalPart_distinguished (key target : String) (op : TagOperator) :
    evalPart (atKey stringText) (carrier key (distinguished target op)) (op.part key target)
      ≠ if op = .eq ∨ op = .ne then none else some false := by
  have hmember : ∀ value, (atKey stringText).member (carrier key value) key = some value :=
    fun value => List.lookup_cons_self
  have hscalar : ∀ s, scalarText (atKey stringText) (carrier key (.string s)) key = some s := by
    intro s
    rw [scalarText, hmember]
    rfl
  have hself : compareText target target = 0 := by simp [compareText]
  cases op
  case eq => simp [TagOperator.part, evalPart, distinguished, hscalar]
  case ne => simp [TagOperator.part, evalPart, distinguished, hscalar]
  case gt =>
    have hlt : target < target ++ "0" := by
      rw [String.lt_iff_toList_lt, String.toList_append]
      exact lt_concat _ _
    have hcompare : compareText (target ++ "0") target = 1 := by
      rw [compareText, if_neg hlt.not_gt, if_pos hlt]
    simp [TagOperator.part, evalPart, distinguished, hscalar, hmember, hcompare,
      OrderOperator.holds]
  case gte =>
    simp [TagOperator.part, evalPart, distinguished, hscalar, hmember, hself, OrderOperator.holds]
  case lte =>
    simp [TagOperator.part, evalPart, distinguished, hscalar, hmember, hself, OrderOperator.holds]
  case lt =>
    by_cases ht : target = ""
    · subst ht
      have hnone : compareJSONNumbers "0" "" = none := by decide +kernel
      simp [TagOperator.part, evalPart, distinguished, hmember, hnone]
    · have hlt : "" < target := by
        rw [String.lt_iff_toList_lt]
        obtain ⟨c, cs, hcs⟩ := List.exists_cons_of_ne_nil (l := target.toList) (by simpa using ht)
        rw [hcs]
        exact List.nil_lt_cons c cs
      have hcompare : compareText "" target = -1 := by
        rw [compareText, if_pos hlt]
      simp [TagOperator.part, evalPart, distinguished, hscalar, hmember, hcompare, ht,
        OrderOperator.holds]

/-- The comparison of an accepted tag is evaluated on the root member of the key exactly if the key
has neither a quote nor a backslash. -/
theorem tag_addresses_field_iff (tag : ReadTag) (htag : validateTag tag = .ok ()) :
    (∃ text, CriteriaText.buildCriteriaSQL (encodeReadCriteria [⟨[tag]⟩]) = .ok text ∧
      ∀ castText doc, evalText castText doc text
        = some (.ofTruth (evalPart (atKey castText) doc (tagPart tag)))) ↔
      '"' ∉ tag.key.toList ∧ '\\' ∉ tag.key.toList := by
  obtain ⟨-, -, op, hop⟩ := validateTag_ok htag
  obtain ⟨text, htext, heval⟩ := evalText_tag htag
  have hpart : tagPart tag = op.part tag.key tag.value := by
    rw [tagPart, hop, Option.getD_some]
  constructor
  · rintro ⟨text', htext', hall⟩
    obtain rfl : text = text' := Except.ok.inj (htext.symm.trans htext')
    have hcarrier := hall stringText (carrier tag.key (distinguished tag.value op))
    rw [heval, hpart] at hcarrier
    by_contra hplain
    have hspecial : '"' ∈ tag.key.toList ∨ '\\' ∈ tag.key.toList := by
      rw [not_and_or, not_not, not_not] at hplain
      exact hplain
    rcases hlookup : (onPaths stringText).lookup (carrier tag.key (distinguished tag.value op))
        tag.key with e | _ | x
    · rw [eval_partExpr_malformed hlookup] at hcarrier
      cases hcarrier
    · rw [eval_partExpr hlookup] at hcarrier
      refine evalPart_distinguished tag.key tag.value op ?_
      rw [← ofTruth_injective (Option.some.inj hcarrier)]
      exact evalPart_missing (member_of_ok hlookup)
    · exact lookup_carrier hspecial tag.value op x hlookup
  · intro hplain
    refine ⟨text, htext, fun castText doc => ?_⟩
    have hlookup := @lookup_of_plain castText tag.key hplain doc
    rw [heval, hpart, eval_partExpr hlookup]
    refine congrArg (fun b => some (Value.ofTruth b)) (evalPart_congr ?_ rfl)
    exact member_of_ok hlookup

theorem tag_addresses_field_apostrophe :
    validateTag ⟨"user's name", "O'Hara", "gte"⟩ = .ok () ∧
      ∃ text, CriteriaText.buildCriteriaSQL
          (encodeReadCriteria [⟨[⟨"user's name", "O'Hara", "gte"⟩]⟩]) = .ok text ∧
        ∀ castText doc, evalText castText doc text
          = some (.ofTruth (evalPart (atKey castText) doc (tagPart ⟨"user's name", "O'Hara", "gte"⟩))) :=
  ⟨by decide, (tag_addresses_field_iff _ (by decide)).2 (by decide)⟩

def backslashTag : ReadTag := ⟨"a\\nb", "v", "eq"⟩

def quoteTag : ReadTag := ⟨"a\"b", "v", "eq"⟩

/-- A document that carries the key `a"b`, and one with the member `a`. -/
def quoteDocuments : List Json :=
  [carrier quoteTag.key (.string "v"), .object [("a", .number "1")]]

/-- A field with a backslash or a quote in its name is not seen, and the statement of a key with a
quote fails on a document that has the part of the key before it for a member. -/
theorem accepted_key_misses_field :
    (validateTag backslashTag = .ok () ∧
      ((carrier backslashTag.key (.string "v")).get? backslashTag.key).isSome ∧
      ∃ text, CriteriaText.buildCriteriaSQL (encodeReadCriteria [⟨[backslashTag]⟩]) = .ok text ∧
        evalText stringText (carrier backslashTag.key (.string "v")) text = some .null) ∧
    validateTag quoteTag = .ok () ∧
      ∃ text, CriteriaText.buildCriteriaSQL (encodeReadCriteria [⟨[quoteTag]⟩]) = .ok text ∧
        quoteDocuments.map (evalText stringText · text) = [some .null, none] := by
  have hmissing : ∀ tag : ReadTag, tagPart tag = .equal tag.key "v" →
      (onPaths stringText).lookup (carrier tag.key (.string "v")) tag.key = .ok none →
      eval stringText (carrier tag.key (.string "v")) (partExpr (tagPart tag)) = some .null := by
    intro tag hpart hlookup
    rw [hpart]
    refine (eval_partExpr hlookup .eq "v").trans ?_
    exact congrArg (fun b => some (Value.ofTruth b)) (evalPart_missing (member_of_ok hlookup))
  obtain ⟨text, htext, heval⟩ := @evalText_tag backslashTag (by decide)
  obtain ⟨text', htext', heval'⟩ := @evalText_tag quoteTag (by decide)
  refine ⟨⟨by decide, rfl, text, htext, ?_⟩, by decide, text', htext', ?_⟩
  · rw [heval]
    exact hmissing backslashTag rfl rfl
  · have hnull : eval stringText (carrier quoteTag.key (.string "v")) (partExpr (tagPart quoteTag))
        = some .null := hmissing quoteTag rfl rfl
    have hfails : eval stringText (.object [("a", .number "1")]) (partExpr (tagPart quoteTag))
        = none := eval_partExpr_malformed (e := .badPath) rfl .eq "v"
    simp only [quoteDocuments, List.map_cons, List.map_nil, heval', hnull, hfails]

end Orisun.Sqlite
