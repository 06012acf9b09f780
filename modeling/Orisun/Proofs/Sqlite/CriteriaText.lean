import Orisun.Lib.Grouped
import Orisun.Proofs.Sqlite.Predicate
import Orisun.Sqlite.CriteriaText

/-!
# Criteria cannot leave their literals

Keys and values are literals in the text, and the text around them is scanned to the same tokens
whatever they hold.
-/

namespace Orisun.Sqlite.CriteriaText

open SqlText

theorem toList_doubled (quote : Char) (s : String) :
    (Orisun.doubled quote s).toList = s.toList.flatMap fun c => if c = quote then [c, c] else [c] :=
  String.toList_ofList

theorem toList_sqlEscapeLiteral (v : String) : (sqlEscapeLiteral v).toList = literal v.toList := by
  have hdoubled : (Orisun.doubled '\'' v).toList = SqlText.doubled v.toList := by
    rw [toList_doubled]
    refine congrArg (List.flatMap · _) (funext fun c => ?_)
    split_ifs with hc
    · rw [hc]
    · rfl
  simp [sqlEscapeLiteral, literal, hdoubled]

theorem jsonPathLiteral_eq (key : String) :
    jsonPathLiteral key = sqlEscapeLiteral (String.ofList (pathText key)) := by
  rw [← String.toList_inj]
  simp [jsonPathLiteral, sqlEscapeLiteral, pathText, toList_doubled]

theorem toList_jsonPathLiteral (key : String) :
    (jsonPathLiteral key).toList = literal (pathText key) := by
  rw [jsonPathLiteral_eq, toList_sqlEscapeLiteral, String.toList_ofList]

theorem toList_join (sep : String) : ∀ ss : List String,
    (Orisun.join sep ss).toList = SqlText.join sep.toList (ss.map String.toList)
  | [] => rfl
  | [_] => rfl
  | s :: t :: ss => by
    have ih := toList_join sep (t :: ss)
    simp only [Orisun.join, SqlText.join, List.map_cons, String.toList_append, ih,
      List.append_assoc]

def scalarTokens (key : String) : List Token :=
  [.word "CASE".toList, .word "json_type".toList, .operator "(".toList, .word "data".toList,
    .operator ",".toList, .string (pathText key), .operator ")".toList, .word "WHEN".toList,
    .string "true".toList, .word "THEN".toList, .string "true".toList, .word "WHEN".toList,
    .string "false".toList, .word "THEN".toList, .string "false".toList, .word "ELSE".toList,
    .word "CAST".toList, .operator "(".toList, .word "json_extract".toList, .operator "(".toList,
    .word "data".toList, .operator ",".toList, .string (pathText key), .operator ")".toList,
    .word "AS".toList, .word "TEXT".toList, .operator ")".toList, .word "END".toList]

theorem parse_scalarTokens (key : String) (frames : List Frame) :
    parse ⟨frames, none⟩ (scalarTokens key) = some ⟨frames, some (scalarExpr key)⟩ := rfl

theorem scalar_pieces :
    Piece "CASE json_type(data, ".toList
      [.word "CASE".toList, .word "json_type".toList, .operator "(".toList, .word "data".toList,
        .operator ",".toList] ∧
    Piece (") WHEN 'true' THEN 'true' WHEN 'false' THEN 'false' ELSE CAST(".toList ++
        "json_extract(data, ".toList)
      [.operator ")".toList, .word "WHEN".toList,
        .string "true".toList, .word "THEN".toList, .string "true".toList, .word "WHEN".toList,
        .string "false".toList, .word "THEN".toList, .string "false".toList, .word "ELSE".toList,
        .word "CAST".toList, .operator "(".toList, .word "json_extract".toList,
        .operator "(".toList, .word "data".toList, .operator ",".toList] ∧
    (")".toList ++ " AS TEXT) END".toList).head?.any (· ≠ '\'') = true ∧
    scan .start (")".toList ++ " AS TEXT) END".toList)
      = (.word "END".toList, [.operator ")".toList, .word "AS".toList, .word "TEXT".toList,
        .operator ")".toList]) := by
  decide +kernel

theorem scans_scalar (key : String) :
    Scans (sqliteJSONScalarTextExpr key).toList (scalarTokens key) := by
  obtain ⟨h1, h2, hhead, h3⟩ := scalar_pieces
  have hscan := h1.scan_append (h2.scan_literal (s := pathText key)
    (scan_literal_append (s := pathText key) hhead h3))
  refine ⟨_, _, _, (congrArg _ ?_).trans hscan, ends_word _, rfl⟩
  unfold sqliteJSONScalarTextExpr jsonExtractExpr
  simp only [String.toList_append, toList_jsonPathLiteral, List.append_assoc]

def comparedTokens (key : String) (op : Token) (value : String) : List Token :=
  scalarTokens key ++ op :: [.string value.toList]

theorem scans_compared {sep : String} {t : Token} (key value : String)
    (hsep : Separates sep.toList t) :
    Scans (sqliteJSONScalarTextExpr key ++ sep ++ sqlEscapeLiteral value).toList
      (comparedTokens key t value) := by
  rw [String.toList_append, String.toList_append, List.append_assoc, toList_sqlEscapeLiteral]
  exact (scans_scalar key).append (scans_literal value.toList) hsep

theorem reads_compared {t : Token} {op : BinaryOperator} (key value : String)
    (hop : binaryOperator t.upper = some op) (hne : t ≠ .operator "(".toList)
    (hp : 2 < op.precedence) :
    Reads (comparedTokens key t value) (.binary op (scalarExpr key) (.string value.toList)) := by
  intro frames hl
  refine ⟨[.binary op (scalarExpr key)], .string value.toList, ?_, fun p h => ?_⟩
  · have hread : SqlText.read ⟨frames, some (scalarExpr key)⟩ t
        = some ⟨.binary op (scalarExpr key) :: frames, none⟩ := by
      simp only [SqlText.read, readCall_eq_none hne, hop, hl _ hp]
    rw [comparedTokens, parse_append, parse_scalarTokens, Option.bind_some, parse, hread]
    rfl
  · rw [List.singleton_append, close, if_pos (by omega)]

def orderToken : OrderOperator → Token
  | .gt => .operator ">".toList
  | .gte => .operator ">=".toList
  | .lt => .operator "<".toList
  | .lte => .operator "<=".toList

def numberTokens (key : String) (op : OrderOperator) (value : String) : List Token :=
  [.operator "(".toList, .word "orisun_compare_number".toList, .operator "(".toList,
    .word "data".toList, .operator "->".toList, .string (pathText key), .operator ",".toList,
    .string value.toList, .operator ")".toList, orderToken op, .word "0".toList,
    .operator ")".toList]

def orderTokens (key : String) (op : OrderOperator) (value : String) : List Token :=
  [.operator "(".toList, .word "CASE".toList, .word "json_type".toList, .operator "(".toList,
    .word "data".toList, .operator ",".toList, .string (pathText key), .operator ")".toList,
    .word "WHEN".toList, .string "text".toList, .word "THEN".toList, .operator "(".toList] ++
  (scalarTokens key ++
  ([.word "COLLATE".toList, .word "BINARY".toList, orderToken op, .string value.toList,
    .operator ")".toList, .word "WHEN".toList, .string "integer".toList, .word "THEN".toList] ++
  (numberTokens key op value ++
  ([.word "WHEN".toList, .string "real".toList, .word "THEN".toList] ++
  (numberTokens key op value ++
  [.word "ELSE".toList, .word "0".toList, .word "END".toList, .operator ")".toList])))))

theorem reads_order (key : String) (op : OrderOperator) (value : String) :
    Reads (orderTokens key op value) (partExpr (.order key op value)) := by
  intro frames _
  refine ⟨[], _, ?_, fun p _ => rfl⟩
  cases op <;> rfl

theorem order_pieces (op : OrderOperator) :
    (Piece "(CASE json_type(data, ".toList
      [.operator "(".toList, .word "CASE".toList, .word "json_type".toList, .operator "(".toList,
        .word "data".toList, .operator ",".toList] ∧
    Piece ") WHEN 'text' THEN ".toList [.operator ")".toList,
      .word "WHEN".toList, .string "text".toList, .word "THEN".toList]) ∧
    Piece ("COLLATE BINARY ".toList ++ ((tagSQLOperator (orderTag op)).toList ++ " ".toList))
      [.word "COLLATE".toList, .word "BINARY".toList, orderToken op] ∧
    Piece ") WHEN 'integer' THEN (orisun_compare_number(data -> ".toList
      [.operator ")".toList, .word "WHEN".toList, .string "integer".toList, .word "THEN".toList,
        .operator "(".toList, .word "orisun_compare_number".toList, .operator "(".toList,
        .word "data".toList, .operator "->".toList] ∧
    Piece ", ".toList [.operator ",".toList] ∧
    Piece (") ".toList ++ ((tagSQLOperator (orderTag op)).toList ++
        " 0) WHEN 'real' THEN (orisun_compare_number(data -> ".toList))
      [.operator ")".toList, orderToken op, .word "0".toList, .operator ")".toList,
        .word "WHEN".toList, .string "real".toList, .word "THEN".toList,
        .operator "(".toList, .word "orisun_compare_number".toList, .operator "(".toList,
        .word "data".toList, .operator "->".toList] ∧
    (") ".toList ++ ((tagSQLOperator (orderTag op)).toList ++
      " 0) ELSE 0 END)".toList)).head?.any (· ≠ '\'') = true ∧
    scan .start (") ".toList ++ ((tagSQLOperator (orderTag op)).toList ++
        " 0) ELSE 0 END)".toList))
      = (.operator ")".toList, [.operator ")".toList, orderToken op, .word "0".toList,
        .operator ")".toList, .word "ELSE".toList, .word "0".toList, .word "END".toList]) := by
  cases op <;> decide +kernel

theorem scan_order_tail (key : String) (op : OrderOperator) (value : String) :
    scan .start ("COLLATE BINARY ".toList ++ ((tagSQLOperator (orderTag op)).toList ++ (" ".toList ++
      (literal value.toList ++ (") WHEN 'integer' THEN (orisun_compare_number(data -> ".toList ++
      (literal (pathText key) ++ (", ".toList ++ (literal value.toList ++ (") ".toList ++
      ((tagSQLOperator (orderTag op)).toList ++
      (" 0) WHEN 'real' THEN (orisun_compare_number(data -> ".toList ++ (literal (pathText key) ++
      (", ".toList ++ (literal value.toList ++ (") ".toList ++
      ((tagSQLOperator (orderTag op)).toList ++ " 0) ELSE 0 END)".toList))))))))))))))))
    = (.operator ")".toList, [.word "COLLATE".toList, .word "BINARY".toList, orderToken op,
        .string value.toList, .operator ")".toList, .word "WHEN".toList, .string "integer".toList,
        .word "THEN".toList] ++ (numberTokens key op value ++
      ([.word "WHEN".toList, .string "real".toList, .word "THEN".toList] ++
      (numberTokens key op value ++
        [.word "ELSE".toList, .word "0".toList, .word "END".toList])))) := by
  obtain ⟨-, h1, h2, h3, h4, hhead, h5⟩ := order_pieces op
  have hscan := h1.scan_append (h2.scan_literal (s := value.toList)
    (h3.scan_literal (s := pathText key) (h4.scan_literal (s := value.toList)
      (h3.scan_literal (s := pathText key) (scan_literal_append (s := value.toList) hhead h5)))))
  simp only [List.append_assoc] at hscan
  exact hscan

theorem scans_order (key : String) (op : OrderOperator) (value : String) :
    Scans (orderText (jsonPathLiteral key) (sqliteJSONScalarTextExpr key)
      (tagSQLOperator (orderTag op)) (sqlEscapeLiteral value)).toList
      (orderTokens key op value) := by
  obtain ⟨⟨h0, h1⟩, -⟩ := order_pieces op
  have hopen : ") WHEN 'text' THEN (".toList = ") WHEN 'text' THEN ".toList ++ ['('] := by
    simp
  have hcollate : " COLLATE BINARY ".toList = ' ' :: "COLLATE BINARY ".toList := by
    simp
  have hscalar := (scans_scalar key).scan_blank (scan_order_tail key op value)
  have hscan := h0.scan_append (h1.scan_literal (s := pathText key)
    (scan_parenthesis (by simp) hscalar))
  refine ⟨_, _, _, (congrArg _ ?_).trans hscan, ends_parenthesis, ?_⟩
  · unfold orderText
    simp only [String.toList_append, toList_jsonPathLiteral, toList_sqlEscapeLiteral, hopen,
      hcollate, List.append_assoc, List.cons_append, List.nil_append]
  · simp [orderTokens]

/-- The text is one operand of `AND` and `OR`, the expression. -/
def Means (text : String) (e : Expr) : Prop := ∃ ts, Scans text.toList ts ∧ Reads ts e

theorem separators :
    Separates " = ".toList (.operator "=".toList) ∧
    Separates " <> ".toList (.operator "<>".toList) ∧
    Separates " AND ".toList (.word "AND".toList) ∧
    Separates " OR ".toList (.word "OR".toList) := by
  decide +kernel

/-- A comparison's text scans and parses to its expression. -/
theorem means_part (part : SqlPart) : Means (partText part) (partExpr part) := by
  cases part with
  | equal key value =>
    exact ⟨_, scans_compared key value separators.1, reads_compared key value rfl (by decide) (by decide)⟩
  | notEqual key value =>
    exact ⟨_, scans_compared key value separators.2.1, reads_compared key value rfl (by decide) (by decide)⟩
  | order key op value => exact ⟨_, scans_order key op value, reads_order key op value⟩

theorem sqlValueLiteral_eq (v : String) :
    sqlValueLiteral v = if containsNul v then none else some (sqlEscapeLiteral v) := by
  unfold sqlValueLiteral containsNul
  simp only [List.contains_iff_mem]

theorem renderTagPredicate_eq (key : String) (p : TagPredicate) :
    renderTagPredicate key p = (Sqlite.renderTagPredicate key p).map partText := by
  unfold renderTagPredicate Sqlite.renderTagPredicate
  rcases canonicalTagOperator p.operator with _ | op
  · rfl
  rw [sqlValueLiteral_eq]
  by_cases hn : containsNul p.value = true
  · simp [hn, Except.map]
  have hblank : ∀ op : String, sqliteJSONScalarTextExpr key ++ " " ++ op ++ " "
      = sqliteJSONScalarTextExpr key ++ (" " ++ op ++ " ") := fun op => by
    simp only [String.append_assoc]
  simp only [hn, Bool.false_eq_true, if_false, Except.map, hblank]
  cases op <;> rfl

/-- What is rendered is the text of one comparison. -/
theorem renderTagPredicate_ok {key : String} {p : TagPredicate} {text : String}
    (h : renderTagPredicate key p = .ok text) :
    text = partText (predicatePart key p) ∧ containsNul p.value = false := by
  rw [renderTagPredicate_eq, Attempt.map_eq_ok] at h
  obtain ⟨part, hpart, rfl⟩ := h
  unfold Sqlite.renderTagPredicate at hpart
  rcases hop : canonicalTagOperator p.operator with _ | op <;> rw [hop] at hpart
  · cases hpart
  · dsimp only at hpart
    split_ifs at hpart with hn
    cases hpart
    rw [predicatePart, hop, Option.getD_some]
    exact ⟨rfl, (Bool.not_eq_true _).mp hn⟩

theorem exists_tokens {texts : List String} {es : List Expr} (h : List.Forall₂ Means texts es) :
    ∃ tss, List.Forall₂ Scans (texts.map String.toList) tss ∧ List.Forall₂ Reads tss es := by
  induction h with
  | nil => exact ⟨[], .nil, .nil⟩
  | cons hmeans _ ih =>
    obtain ⟨ts, hscans, hreads⟩ := hmeans
    obtain ⟨tss, hscanss, hreadss⟩ := ih
    exact ⟨ts :: tss, .cons hscans hscanss, .cons hreads hreadss⟩

theorem joins_and : Joins (.word "AND".toList) .and := ⟨by decide, by decide, by decide⟩

theorem joins_or : Joins (.word "OR".toList) .or := ⟨by decide, by decide, by decide⟩

theorem means_conjunction {texts : List String} {es : List Expr}
    (h : List.Forall₂ Means texts es) (hne : texts ≠ []) :
    Means ("(" ++ Orisun.join " AND " texts ++ ")") (.paren (chain .and es)) := by
  obtain ⟨tss, hscans, hreads⟩ := exists_tokens h
  have htext : ("(" ++ Orisun.join " AND " texts ++ ")").toList
      = '(' :: (SqlText.join " AND ".toList (texts.map String.toList) ++ [')']) := by
    rw [String.toList_append, String.toList_append, toList_join]
    rfl
  have hscans' := (scans_join separators.2.2.1 hscans (by simpa using hne)).parenthesised
  have htss : tss ≠ [] := by
    rintro rfl
    cases hreads
    cases h
    exact hne rfl
  rw [← htext] at hscans'
  refine ⟨_, hscans', reads_paren fun frames hs => ?_⟩
  obtain ⟨inner, e, hparse, hclose⟩ := parse_chain joins_and hs hreads htss
  exact ⟨inner, e, hparse, hclose 0 (Nat.zero_le _)⟩

theorem means_field {key : String} {f : TagField} {text : String} (hne : f ≠ .predicates [])
    (h : renderCriterionPredicate key f = .ok text) : Means text (fieldExpr key f) := by
  cases f with
  | scalar value =>
    simp only [renderCriterionPredicate, sqlValueLiteral_eq] at h
    split_ifs at h
    cases h
    exact means_part (.equal key value)
  | predicates ps =>
    simp only [renderCriterionPredicate, Attempt.bind_eq_ok] at h
    obtain ⟨texts, htexts, h⟩ := h
    cases h
    have hall := Attempt.forall₂_of_mapM_ok htexts
    refine means_conjunction ?_ fun hnil => hne ?_
    · refine List.forall₂_map_right_iff.2 (hall.flip.imp fun text p htext => ?_)
      rw [(renderTagPredicate_ok htext).1]
      exact means_part _
    · subst hnil
      cases hall
      rfl

def Decodable (fields : List (String × TagField)) : Prop := ∀ f ∈ fields, f.2 ≠ .predicates []

theorem criterionText_ok {c : EncodedCriterion} {t : Option String} (hd : Decodable c.fields)
    (h : criterionText c = .ok t) :
    (sortedFields c = [] ∧ t = none) ∨
      sortedFields c ≠ [] ∧ ∃ text, t = some text ∧ Means text (criterionExpr (sortedFields c)) := by
  simp only [criterionText, Attempt.bind_eq_ok] at h
  obtain ⟨andParts, hparts, h⟩ := h
  cases h
  have hall := Attempt.forall₂_of_mapM_ok hparts
  have hnil : andParts = [] ↔ sortedFields c = [] := by
    rw [← List.length_eq_zero_iff, ← List.length_eq_zero_iff, hall.length_eq]
  by_cases hne : andParts = []
  · exact .inl ⟨hnil.1 hne, by rw [hne]; rfl⟩
  refine .inr ⟨fun hs => hne (hnil.2 hs), _, if_neg (by simpa using hne),
    means_conjunction (List.forall₂_map_right_iff.2 ?_) hne⟩
  have hfields : ∀ f ∈ sortedFields c, f.2 ≠ .predicates [] :=
    fun f hf => hd f (List.mem_mergeSort.1 hf)
  exact ((List.forall₂_and_left _ _).2 ⟨hfields, hall⟩).flip.imp
    fun text f htext => means_field htext.1 htext.2

theorem means_criteria {criteria : List EncodedCriterion} {ts : List (Option String)}
    (hd : ∀ c ∈ criteria, Decodable c.fields)
    (h : List.Forall₂ (fun c t => criterionText c = .ok t) criteria ts) :
    List.Forall₂ Means (ts.filterMap id)
      (((criteria.map sortedFields).filter (!·.isEmpty)).map criterionExpr) := by
  induction h with
  | nil => exact .nil
  | @cons c t criteria ts hc _ ih =>
    have ih := ih fun c hc => hd c (List.mem_cons_of_mem _ hc)
    rcases criterionText_ok (hd c List.mem_cons_self) hc with ⟨hs, rfl⟩ | ⟨hs, text, rfl, hmeans⟩
    · rw [List.map_cons, List.filter_cons_of_neg (by simp [hs])]
      exact ih
    · rw [List.map_cons, List.filter_cons_of_pos (by simp [hs])]
      exact .cons hmeans ih

/-- The text of a list parses to the disjunction of its criteria. -/
theorem expression_buildCriteriaSQL {criteria : List EncodedCriterion} {text : String}
    (hd : ∀ c ∈ criteria, Decodable c.fields) (h : buildCriteriaSQL criteria = .ok text) :
    ∃ ts, Scans text.toList ts ∧ expression ts = some (whereExpr (criteria.map sortedFields)) := by
  simp only [buildCriteriaSQL, Attempt.bind_eq_ok] at h
  obtain ⟨ts, hts, h⟩ := h
  cases h
  have hmeans := means_criteria hd (Attempt.forall₂_of_mapM_ok hts)
  unfold whereExpr
  generalize ((criteria.map sortedFields).filter (!·.isEmpty)).map criterionExpr = es at hmeans ⊢
  generalize ts.filterMap id = orParts at hmeans ⊢
  rcases es with _ | ⟨e, es⟩
  · obtain rfl := List.forall₂_nil_right_iff.1 hmeans
    exact ⟨_, ⟨.word "1".toList, [], _, rfl, ends_word _, rfl⟩, rfl⟩
  · have hne : orParts ≠ [] := by
      rintro rfl
      cases hmeans
    obtain ⟨tss, hscans, hreads⟩ := exists_tokens hmeans
    have htss : tss ≠ [] := by
      rintro rfl
      cases hreads
    refine ⟨SqlText.join [.word "OR".toList] tss, ?_, expression_chain joins_or hreads htss⟩
    rw [if_neg (by simpa using hne), toList_join]
    exact scans_join separators.2.2.2 hscans (by simpa using hne)

theorem blank_partExpr (op : TagOperator) (key key' value value' : String) :
    (partExpr (op.part key value)).blank = (partExpr (op.part key' value')).blank := by
  cases op <;>
    simp only [TagOperator.part, partExpr, numberExpr, scalarExpr, typeExpr, pathExpr, Expr.blank,
      blankArgs, blankArms, blankOtherwise]

theorem blank_fieldExpr (f : String × TagField) :
    (fieldExpr f.1 f.2).blank = (fieldExpr (blankField f).1 (blankField f).2).blank := by
  rcases f with ⟨key, value | ps⟩
  · exact blank_partExpr .eq key "" value ""
  · simp only [fieldExpr, blankField, Expr.blank, blank_chain, List.map_map]
    refine congrArg (fun es => Expr.paren (chain .and es)) (List.map_congr_left fun p _ => ?_)
    exact blank_partExpr _ key "" p.value ""

theorem blank_disjunctionExpr : ∀ es : List Expr,
    (disjunctionExpr es).blank = disjunctionExpr (es.map Expr.blank)
  | [] => by
    rw [disjunctionExpr, Expr.blank]
    rfl
  | e :: es => blank_chain .or (e :: es)

theorem blank_whereExpr (criteria : List (List (String × TagField))) :
    (whereExpr criteria).blank = (whereExpr (criteria.map (List.map blankField))).blank := by
  have hcriterion : ∀ fields : List (String × TagField),
      (criterionExpr fields).blank = (criterionExpr (fields.map blankField)).blank := by
    intro fields
    simp only [criterionExpr, Expr.blank, blank_chain, List.map_map]
    exact congrArg (fun es => Expr.paren (chain .and es))
      (List.map_congr_left fun f _ => blank_fieldExpr f)
  have hfilter : (criteria.map (List.map blankField)).filter (!·.isEmpty)
      = (criteria.filter (!·.isEmpty)).map (List.map blankField) := by
    rw [List.filter_map]
    refine congrArg _ (List.filter_congr fun fields _ => ?_)
    simp
  rw [whereExpr, whereExpr, hfilter, blank_disjunctionExpr, blank_disjunctionExpr, List.map_map,
    List.map_map, List.map_map]
  exact congrArg disjunctionExpr (List.map_congr_left fun fields _ => hcriterion fields)

theorem conjunction_foldl : ∀ {es : List Expr} {pss : List (List SqlPart)} {e : Expr}
    {ps : List SqlPart}, List.Forall₂ Conjunction es pss → Conjunction e ps →
      Conjunction (es.foldl (.binary .and) e) (ps ++ pss.flatten)
  | [], [], e, ps, _, h => by simpa using h
  | _ :: _, _ :: _, e, ps, hs, h => by
    obtain ⟨h', hs⟩ := List.forall₂_cons.1 hs
    have ih := conjunction_foldl hs (h.and h')
    rwa [List.append_assoc] at ih

theorem conjunction_chain {es : List Expr} {pss : List (List SqlPart)}
    (h : List.Forall₂ Conjunction es pss) (hne : es ≠ []) :
    Conjunction (chain .and es) pss.flatten := by
  cases h with
  | nil => exact absurd rfl hne
  | cons h hs => exact conjunction_foldl hs h

theorem conjunction_fieldExpr {key : String} {f : TagField} (hne : f ≠ .predicates []) :
    Conjunction (fieldExpr key f) (fieldParts key f) := by
  cases f with
  | scalar value => exact .part (.equal key value)
  | predicates ps =>
    have hparts : List.Forall₂ Conjunction (ps.map fun p => partExpr (predicatePart key p))
        (ps.map fun p => [predicatePart key p]) := by
      refine List.forall₂_map_left_iff.2 (List.forall₂_map_right_iff.2 ?_)
      exact List.forall₂_same.2 fun p _ => .part _
    have hchain := conjunction_chain hparts (by simpa using fun h => hne (by rw [h]))
    rw [← List.flatMap_def, ← List.map_eq_flatMap] at hchain
    exact .paren hchain

theorem disjunction_foldl : ∀ {es : List Expr} {pss : List (List SqlPart)} {e : Expr}
    {pss' : List (List SqlPart)}, List.Forall₂ Conjunction es pss → Disjunction e pss' →
      Disjunction ((es.map Expr.paren).foldl (.binary .or) e) (pss' ++ pss)
  | [], [], e, pss', _, h => by simpa using h
  | _ :: _, _ :: _, e, pss', hs, h => by
    obtain ⟨h', hs⟩ := List.forall₂_cons.1 hs
    have ih := disjunction_foldl hs (h.or h')
    rwa [List.append_assoc] at ih

/-- The comparisons of a criterion, in the order of the keys. -/
def criterionParts (fields : List (String × TagField)) : List SqlPart :=
  fields.flatMap fun f => fieldParts f.1 f.2

theorem disjunction_whereExpr {criteria : List (List (String × TagField))}
    (hd : ∀ c ∈ criteria, Decodable c) (hne : criteria.filter (!·.isEmpty) ≠ []) :
    Disjunction (whereExpr criteria) ((criteria.filter (!·.isEmpty)).map criterionParts) := by
  have hall : ∀ c ∈ criteria.filter (!·.isEmpty),
      Conjunction (chain .and (c.map fun f => fieldExpr f.1 f.2)) (criterionParts c) := by
    intro c hc
    obtain ⟨hc, hcne⟩ := List.mem_filter.1 hc
    refine conjunction_chain ?_ (by simpa using hcne)
    exact List.forall₂_map_left_iff.2 (List.forall₂_map_right_iff.2
      (List.forall₂_same.2 fun f hf => conjunction_fieldExpr (hd c hc f hf)))
  unfold whereExpr
  generalize criteria.filter (!·.isEmpty) = cs at hall hne ⊢
  rcases cs with _ | ⟨c, cs⟩
  · exact absurd rfl hne
  · have hcs : List.Forall₂ Conjunction
        (cs.map fun c => chain .and (c.map fun f => fieldExpr f.1 f.2)) (cs.map criterionParts) :=
      List.forall₂_map_left_iff.2 (List.forall₂_map_right_iff.2
        (List.forall₂_same.2 fun c hc => hall c (List.mem_cons_of_mem _ hc)))
    have h := disjunction_foldl hcs (.one (hall c List.mem_cons_self))
    rw [List.map_map] at h
    exact h

theorem fieldParts_encodeField (key : String) (ps : List TagPredicate) :
    fieldParts key (encodeField ps) = ps.map (predicatePart key) := by
  unfold encodeField
  split <;> rfl

theorem predicatePart_encoded (t : ReadTag) : predicatePart t.key t.encoded = tagPart t := by
  rw [predicatePart, canonicalTagOperator_encoded]
  rfl

/-- Grouping the tags by key loses none. -/
theorem perm_criterionParts (ts : List ReadTag) :
    (criterionParts (sortedFields (encodeCriterion ts))).Perm (ts.map tagPart) := by
  have hsorted : (sortedFields (encodeCriterion ts)).Perm (encodeCriterion ts).fields :=
    List.mergeSort_perm _ _
  refine (hsorted.flatMap_right _).trans ?_
  have hfields : (encodeCriterion ts).fields.flatMap (fun f => fieldParts f.1 f.2)
      = ((tagFields ts).map Prod.fst).flatMap
        fun k => (ts.filter fun t => t.key = k).map tagPart := by
    simp only [encodeCriterion, List.flatMap_map]
    refine List.flatMap_congr fun f hf => ?_
    rw [fieldParts_encodeField, tagFields_predicates hf, List.map_map]
    refine List.map_congr_left fun t ht => ?_
    have hkey : t.key = f.1 := by simpa using (List.mem_filter.1 ht).2
    rw [Function.comp_apply, ← hkey, predicatePart_encoded]
  rw [hfields, ← List.map_flatMap]
  exact (Grouped.perm_flatMap_filter (Fields.Ordered.nodup_keys (tagFields_ordered ts))
    fun t ht => key_mem_tagFields ht).map _

theorem decodable_encodeCriterion (ts : List ReadTag) : Decodable (encodeCriterion ts).fields := by
  intro f hf
  obtain ⟨g, hg, rfl⟩ := List.mem_map.1 hf
  have hne := tagFields_ne_nil hg
  unfold encodeField
  split
  · simp
  · simpa using hne

theorem sortedFields_encodeCriterion_eq_nil {ts : List ReadTag} :
    sortedFields (encodeCriterion ts) = [] ↔ ts = [] := by
  rw [← fields_encodeCriterion_eq_nil, ← List.length_eq_zero_iff, sortedFields,
    List.length_mergeSort, List.length_eq_zero_iff]

theorem exists_renderCriterionPredicate {key : String} {f : TagField} :
    (∃ text, renderCriterionPredicate key f = .ok text) ↔
      ∃ parts, Sqlite.renderCriterionPredicate key f = .ok parts := by
  cases f with
  | scalar value =>
    simp only [renderCriterionPredicate, Sqlite.renderCriterionPredicate, sqlValueLiteral_eq]
    by_cases hn : containsNul value = true <;> simp [hn]
  | predicates ps =>
    refine (Attempt.exists_bind fun _ => ⟨_, rfl⟩).trans ?_
    rw [Attempt.exists_mapM, Sqlite.renderCriterionPredicate, Attempt.exists_mapM]
    refine forall₂_congr fun p _ => ?_
    rw [renderTagPredicate_eq, Attempt.exists_map]

/-- A text is rendered exactly if the comparisons of every criterion are built. -/
theorem exists_buildCriteriaSQL {criteria : List EncodedCriterion} :
    (∃ text, buildCriteriaSQL criteria = .ok text) ↔
      ∀ c ∈ criteria, ∃ parts, Sqlite.buildCriteriaSQL c = .ok parts := by
  refine (Attempt.exists_bind fun _ => ⟨_, rfl⟩).trans (Attempt.exists_mapM.trans ?_)
  refine forall₂_congr fun c _ => ?_
  have htext : (∃ t, criterionText c = .ok t) ↔
      ∀ f ∈ sortedFields c, ∃ text, renderCriterionPredicate f.1 f.2 = .ok text :=
    (Attempt.exists_bind fun _ => ⟨_, rfl⟩).trans Attempt.exists_mapM
  have hparts : (∃ parts, Sqlite.buildCriteriaSQL c = .ok parts) ↔
      ∀ f ∈ sortedFields c, ∃ parts, Sqlite.renderCriterionPredicate f.1 f.2 = .ok parts :=
    (Attempt.exists_bind fun _ => ⟨_, rfl⟩).trans Attempt.exists_mapM
  rw [htext, hparts]
  exact forall₂_congr fun f _ => exists_renderCriterionPredicate

theorem containsNul_append (s t : String) :
    containsNul (s ++ t) = (containsNul s || containsNul t) := by
  simp [containsNul]

theorem containsNul_doubled {quote : Char} (hq : quote ≠ '\x00') (s : String) :
    containsNul (Orisun.doubled quote s) = containsNul s := by
  have hmem : '\x00' ∈ (Orisun.doubled quote s).toList ↔ '\x00' ∈ s.toList := by
    rw [toList_doubled, List.mem_flatMap]
    constructor
    · rintro ⟨c, hc, h⟩
      have he : '\x00' = c := by
        split_ifs at h <;> simpa using h
      exact he ▸ hc
    · exact fun h => ⟨_, h, by rw [if_neg hq.symm]; exact List.mem_singleton_self _⟩
  rw [Bool.eq_iff_iff]
  simpa [containsNul] using hmem

theorem containsNul_sqlEscapeLiteral (v : String) :
    containsNul (sqlEscapeLiteral v) = containsNul v := by
  have hquote : containsNul "'" = false := by simp [containsNul]
  rw [sqlEscapeLiteral, containsNul_append, containsNul_append, containsNul_doubled (by decide),
    hquote, Bool.false_or, Bool.or_false]

theorem containsNul_jsonPathLiteral (key : String) :
    containsNul (jsonPathLiteral key) = containsNul key := by
  have hleft : containsNul "'$.\"" = false := by simp [containsNul]
  have hright : containsNul "\"'" = false := by simp [containsNul]
  rw [jsonPathLiteral, containsNul_append, containsNul_append, containsNul_doubled (by decide),
    containsNul_doubled (by decide), hleft, hright, Bool.false_or, Bool.or_false]

theorem containsNul_scalar {key : String} (hk : containsNul key = false) :
    containsNul (sqliteJSONScalarTextExpr key) = false := by
  unfold sqliteJSONScalarTextExpr jsonExtractExpr
  simp only [containsNul_append, containsNul_jsonPathLiteral, hk]
  simp [containsNul]

theorem containsNul_compared {key value sep : String} (hk : containsNul key = false)
    (hv : containsNul value = false) (hsep : containsNul sep = false) :
    containsNul (sqliteJSONScalarTextExpr key ++ sep ++ sqlEscapeLiteral value) = false := by
  rw [containsNul_append, containsNul_append, containsNul_scalar hk, hsep,
    containsNul_sqlEscapeLiteral, hv]
  rfl

theorem containsNul_orderText {path expr op lit : String} (hpath : containsNul path = false)
    (hexpr : containsNul expr = false) (hop : containsNul op = false)
    (hlit : containsNul lit = false) : containsNul (orderText path expr op lit) = false := by
  unfold orderText
  simp only [containsNul_append, hpath, hexpr, hop, hlit]
  simp [containsNul]

theorem containsNul_part {op : TagOperator} {key value : String} (hk : containsNul key = false)
    (hv : containsNul value = false) : containsNul (partText (op.part key value)) = false := by
  have horder : ∀ op : OrderOperator, containsNul (partText (.order key op value)) = false := by
    intro op
    refine containsNul_orderText ((containsNul_jsonPathLiteral key).trans hk)
      (containsNul_scalar hk) ?_ ((containsNul_sqlEscapeLiteral value).trans hv)
    cases op <;> simp [containsNul, tagSQLOperator, orderTag]
  cases op
  case eq => exact containsNul_compared hk hv (by simp [containsNul])
  case ne => exact containsNul_compared hk hv (by simp [containsNul])
  all_goals exact horder _

theorem containsNul_join {sep : String} (hsep : containsNul sep = false) : ∀ {ss : List String},
    (∀ s ∈ ss, containsNul s = false) → containsNul (Orisun.join sep ss) = false
  | [], _ => by
    rw [Orisun.join]
    simp [containsNul]
  | [_], h => h _ (List.mem_singleton_self _)
  | s :: t :: ss, h => by
    obtain ⟨hs, hss⟩ := List.forall_mem_cons.1 h
    rw [Orisun.join, containsNul_append, containsNul_append, hs, hsep, containsNul_join hsep hss]
    rfl

theorem containsNul_parenthesised {texts : List String}
    (h : ∀ s ∈ texts, containsNul s = false) :
    containsNul ("(" ++ Orisun.join " AND " texts ++ ")") = false := by
  rw [containsNul_append, containsNul_append, containsNul_join (by simp [containsNul]) h]
  simp [containsNul]

theorem containsNul_field {key : String} {f : TagField} {text : String}
    (hk : containsNul key = false) (h : renderCriterionPredicate key f = .ok text) :
    containsNul text = false := by
  cases f with
  | scalar value =>
    simp only [renderCriterionPredicate, sqlValueLiteral_eq] at h
    split_ifs at h with hn
    cases h
    exact @containsNul_part .eq key value hk ((Bool.not_eq_true _).mp hn)
  | predicates ps =>
    simp only [renderCriterionPredicate, Attempt.bind_eq_ok] at h
    obtain ⟨texts, htexts, h⟩ := h
    cases h
    refine containsNul_parenthesised fun text htext => ?_
    obtain ⟨p, -, hp⟩ := Attempt.exists_of_mem_mapM_ok htexts text htext
    obtain ⟨rfl, hn⟩ := renderTagPredicate_ok hp
    exact containsNul_part hk hn

theorem containsNul_buildCriteriaSQL {criteria : List EncodedCriterion} {text : String}
    (hk : ∀ c ∈ criteria, ∀ f ∈ c.fields, containsNul f.1 = false)
    (h : buildCriteriaSQL criteria = .ok text) : containsNul text = false := by
  simp only [buildCriteriaSQL, Attempt.bind_eq_ok] at h
  obtain ⟨ts, hts, h⟩ := h
  cases h
  split_ifs
  · simp [containsNul]
  refine containsNul_join (by simp [containsNul]) fun text htext => ?_
  obtain ⟨t, ht, rfl⟩ := List.mem_filterMap.1 htext
  obtain ⟨c, hc, hct⟩ := Attempt.exists_of_mem_mapM_ok hts _ ht
  simp only [criterionText, Attempt.bind_eq_ok] at hct
  obtain ⟨andParts, hparts, hct⟩ := hct
  have hct := Except.ok.inj hct
  split_ifs at hct
  cases hct
  refine containsNul_parenthesised fun text htext => ?_
  obtain ⟨f, hf, hrender⟩ := Attempt.exists_of_mem_mapM_ok hparts text htext
  exact containsNul_field (hk c hc f (List.mem_mergeSort.1 hf)) hrender

theorem filter_textFields (criteria : List ReadCriterion) :
    (textFields criteria).filter (!·.isEmpty)
      = (criteria.filter (!·.tags.isEmpty)).map fun c => sortedFields (encodeCriterion c.tags) := by
  rw [textFields, encodeReadCriteria, List.map_map, List.filter_map]
  refine congrArg _ (List.filter_congr fun c _ => ?_)
  have hnil := @sortedFields_encodeCriterion_eq_nil c.tags
  rw [← List.isEmpty_iff, ← List.isEmpty_iff, ← Bool.eq_iff_iff] at hnil
  exact congrArg (!·) hnil

theorem keys_encodeReadCriteria {criteria : List ReadCriterion}
    (h : ∀ c ∈ criteria, ∀ t ∈ c.tags, containsNul t.key = false) :
    ∀ c ∈ encodeReadCriteria criteria, ∀ f ∈ c.fields, containsNul f.1 = false := by
  simp only [encodeReadCriteria, List.forall_mem_map, encodeCriterion]
  intro c hc f hf
  have hps := tagFields_predicates hf
  rcases hp : f.2 with _ | ⟨p, ps⟩
  · exact absurd hp (tagFields_ne_nil hf)
  · rw [hp] at hps
    have hmem : p ∈ (c.tags.filter fun t => t.key = f.1).map ReadTag.encoded :=
      hps ▸ List.mem_cons_self
    obtain ⟨t, ht, -⟩ := List.mem_map.1 hmem
    obtain ⟨ht, hkey⟩ := List.mem_filter.1 ht
    rw [← of_decide_eq_true hkey]
    exact h c hc t ht

theorem disjunction_textFields {criteria : List ReadCriterion}
    (hne : criteria.all (·.tags.isEmpty) = false) :
    ∃ pss, Disjunction (whereExpr (textFields criteria)) pss ∧ List.Forall₂ List.Perm pss
      ((criteria.filter (!·.tags.isEmpty)).map fun c => c.tags.map tagPart) := by
  have hd : ∀ fields ∈ textFields criteria, Decodable fields := by
    simp only [textFields, encodeReadCriteria, List.forall_mem_map]
    exact fun c _ f hf => decodable_encodeCriterion c.tags f (List.mem_mergeSort.1 hf)
  refine ⟨_, disjunction_whereExpr hd ?_, ?_⟩
  · rw [filter_textFields, ne_eq, List.map_eq_nil_iff, List.filter_eq_nil_iff]
    simpa using hne
  · rw [filter_textFields, List.map_map]
    refine List.forall₂_map_left_iff.2 (List.forall₂_map_right_iff.2 ?_)
    exact List.forall₂_same.2 fun c _ => perm_criterionParts c.tags

section ReadCriteria

variable {criteria : List ReadCriterion}

theorem exists_text (hnul : ∀ c ∈ criteria, ∀ t ∈ c.tags, containsNul t.value = false) :
    (∃ text, buildCriteriaSQL (encodeReadCriteria criteria) = .ok text) ↔
      ∀ c ∈ criteria, ∀ t ∈ c.tags, (canonicalTagOperator t.operator).isSome := by
  rw [exists_buildCriteriaSQL]
  simp only [encodeReadCriteria, List.forall_mem_map, buildCriteriaSQL_ok]
  exact forall₂_congr fun c hc => forall₂_congr fun t ht => and_iff_left (hnul c hc t ht)

theorem text_parses {text : String}
    (hnul : ∀ c ∈ criteria, ∀ t ∈ c.tags, containsNul t.key = false)
    (h : buildCriteriaSQL (encodeReadCriteria criteria) = .ok text) :
    '\x00' ∉ text.toList ∧ ∃ ts, Scans text.toList ts ∧
      expression ts = some (whereExpr (textFields criteria)) := by
  have hd : ∀ c ∈ encodeReadCriteria criteria, Decodable c.fields := by
    simp only [encodeReadCriteria, List.forall_mem_map]
    exact fun c _ => decodable_encodeCriterion c.tags
  refine ⟨?_, expression_buildCriteriaSQL hd h⟩
  have htext := containsNul_buildCriteriaSQL (keys_encodeReadCriteria hnul) h
  simpa [containsNul] using htext

end ReadCriteria

/-- Keys and values cannot leave their literals: the text is a disjunction of conjunctions with one
comparison for every tag, is what it is without any key or value once its literals are emptied, and
the statement around it keeps its tokens. -/
theorem criteria_text_parses (criteria : List ReadCriterion)
    (hnul : ∀ c ∈ criteria, ∀ t ∈ c.tags,
      containsNul t.key = false ∧ containsNul t.value = false) :
    ((∃ text, buildCriteriaSQL (encodeReadCriteria criteria) = .ok text) ↔
      ∀ c ∈ criteria, ∀ t ∈ c.tags, (canonicalTagOperator t.operator).isSome) ∧
    ∀ text, buildCriteriaSQL (encodeReadCriteria criteria) = .ok text →
      ∃ ts e, tokens text.toList = some ts ∧ expression ts = some e ∧
        (if criteria.all (·.tags.isEmpty) then e = .word "1".toList
          else ∃ pss, Disjunction e pss ∧ List.Forall₂ List.Perm pss
            ((criteria.filter (!·.tags.isEmpty)).map fun c => c.tags.map tagPart)) ∧
        e.blank = (whereExpr ((textFields criteria).map (List.map blankField))).blank ∧
        ∀ before after a c, Opens before a → c = ' ' ∨ c = ')' → '\x00' ∉ before →
          tokens (before ++ (text.toList ++ c :: after))
            = (tokens (c :: after)).map fun b => a ++ (ts ++ b) := by
  refine ⟨exists_text fun c hc t ht => (hnul c hc t ht).2, fun text htext => ?_⟩
  obtain ⟨htextNul, ts, hscans, hexpr⟩ := text_parses (fun c hc t ht => (hnul c hc t ht).1) htext
  refine ⟨ts, _, hscans.tokens htextNul, hexpr, ?_, blank_whereExpr _, ?_⟩
  · split_ifs with hempty
    · have hnil : (textFields criteria).filter (!·.isEmpty) = [] := by
        rw [filter_textFields, List.map_eq_nil_iff, List.filter_eq_nil_iff]
        simpa using hempty
      rw [whereExpr, hnil]
      rfl
    · exact disjunction_textFields ((Bool.not_eq_true _).mp hempty)
  · exact fun before after a c hb hc hbefore =>
      hscans.tokens_surrounded hb hc hbefore htextNul

def injection : List ReadCriterion :=
  [⟨[⟨"na'me", "x' OR '1'='1", "gt"⟩]⟩, ⟨[]⟩, ⟨[⟨"--", "') OR (1=1", ""⟩]⟩]

theorem criteria_text_parses_injection :
    ∃ text ts e, buildCriteriaSQL (encodeReadCriteria injection) = .ok text ∧
      tokens text.toList = some ts ∧ expression ts = some e ∧ ∃ pss, Disjunction e pss ∧
        List.Forall₂ List.Perm pss
          [[.order "na'me" .gt "x' OR '1'='1"], [.equal "--" "') OR (1=1"]] := by
  have h := criteria_text_parses injection (by decide +kernel)
  obtain ⟨text, htext⟩ := h.1.2 (by decide +kernel)
  obtain ⟨ts, e, hts, he, hshape, -⟩ := h.2 text htext
  rw [if_neg (by decide +kernel)] at hshape
  exact ⟨text, ts, e, htext, hts, he, hshape⟩

end Orisun.Sqlite.CriteriaText
