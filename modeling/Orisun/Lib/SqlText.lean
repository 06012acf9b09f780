import Mathlib.Data.List.Forall2
import Mathlib.Data.List.TakeWhile

/-!
# The text of an SQL expression

A text is scanned from left to right into words, string literals and operators, and the tokens are
read into an expression by the precedence of the operators. Both work through a state that a
character or a token moves on, so that what a text is read as follows from what its parts do
(`scan_append`, `parse_append`).
-/

namespace SqlText

inductive Token where
  /-- A name, a keyword or a number. -/
  | word (text : List Char)
  | string (content : List Char)
  /-- A name in double quotes. -/
  | quotedName (content : List Char)
  | operator (text : List Char)
  deriving DecidableEq, Repr

inductive Mode where
  | start
  | word (text : List Char)
  /-- Between quotes. -/
  | quoted (quote : Char) (content : List Char)
  /-- After a quote that ends the literal, or is the first of two. -/
  | closing (quote : Char) (content : List Char)
  | operator (text : List Char)
  | lineComment
  | blockComment
  /-- After a star in a comment. -/
  | star
  deriving DecidableEq, Repr

def isWordChar (c : Char) : Bool := c.isAlphanum || c == '_' || c == '$' || decide (127 < c.toNat)

def longOperators : List (List Char) :=
  ["<=", ">=", "<>", "->", "->>", "||", "==", "!=", "<<", ">>"].map String.toList

def begin (c : Char) : Mode :=
  if c.isWhitespace then .start
  else if c == '\'' || c == '"' then .quoted c []
  else if isWordChar c then .word [c]
  else .operator [c]

def quotedToken (quote : Char) (content : List Char) : Token :=
  if quote == '\'' then .string content else .quotedName content

/-- The next mode, and the token the character ends. -/
def step : Mode → Char → Mode × List Token
  | .start, c => (begin c, [])
  | .word text, c => if isWordChar c then (.word (text ++ [c]), []) else (begin c, [.word text])
  | .quoted quote content, c =>
    if c = quote then (.closing quote content, []) else (.quoted quote (content ++ [c]), [])
  | .closing quote content, c =>
    if c = quote then (.quoted quote (content ++ [c]), [])
    else (begin c, [quotedToken quote content])
  | .operator text, c =>
    if text = ['-'] ∧ c = '-' then (.lineComment, [])
    else if text = ['/'] ∧ c = '*' then (.blockComment, [])
    else if longOperators.contains (text ++ [c]) then (.operator (text ++ [c]), [])
    else (begin c, [.operator text])
  | .lineComment, c => (if c = '\n' then .start else .lineComment, [])
  | .blockComment, c => (if c = '*' then .star else .blockComment, [])
  | .star, c => (if c = '/' then .start else if c = '*' then .star else .blockComment, [])

@[simp] theorem step_start (c : Char) : step .start c = (begin c, []) := rfl

def scan : Mode → List Char → Mode × List Token
  | m, [] => (m, [])
  | m, c :: cs => ((scan (step m c).1 cs).1, (step m c).2 ++ (scan (step m c).1 cs).2)

/-- The token at the end of the text, unless it is left open. -/
def finish : Mode → Option (List Token)
  | .start => some []
  | .word text => some [.word text]
  | .quoted _ _ => none
  | .closing quote content => some [quotedToken quote content]
  | .operator text => some [.operator text]
  | .lineComment | .blockComment | .star => some []

def tokens (text : List Char) : Option (List Token) :=
  let r := scan .start (text.takeWhile (· ≠ '\x00'))
  (finish r.1).map (r.2 ++ ·)

theorem scan_append : ∀ {cs cs' : List Char} {m : Mode},
    scan m (cs ++ cs') = ((scan (scan m cs).1 cs').1, (scan m cs).2 ++ (scan (scan m cs).1 cs').2)
  | [], _, _ => rfl
  | c :: cs, cs', m => by
    simp only [List.cons_append, scan, @scan_append cs, List.append_assoc]

theorem scan_blank (cs : List Char) : scan .start (' ' :: cs) = scan .start cs := by
  have hbegin : begin ' ' = .start := rfl
  simp [scan, hbegin]

def doubled (s : List Char) : List Char := s.flatMap fun c => if c = '\'' then ['\'', '\''] else [c]

def literal (s : List Char) : List Char := '\'' :: (doubled s ++ ['\''])

theorem scan_doubled : ∀ {s content : List Char},
    scan (.quoted '\'' content) (doubled s) = (.quoted '\'' (content ++ s), [])
  | [], content => by simp [doubled, scan]
  | c :: s, content => by
    have ih := fun content => @scan_doubled s content
    rw [doubled, List.flatMap_cons, ← doubled, scan_append]
    by_cases hc : c = '\''
    · subst hc
      simp [scan, step, ih]
    · simp [scan, step, hc, ih]

theorem scan_literal (s : List Char) : scan .start (literal s) = (.closing '\'' s, []) := by
  have hbegin : begin '\'' = .quoted '\'' [] := rfl
  simp [literal, scan, step, hbegin, scan_append, scan_doubled]

theorem scan_closing {c : Char} (hc : c ≠ '\'') (s cs : List Char) :
    scan (.closing '\'' s) (c :: cs)
      = ((scan .start (c :: cs)).1, .string s :: (scan .start (c :: cs)).2) := by
  simp [scan, step, hc, quotedToken]

theorem scan_literal_append {s text : List Char} {ts : List Token} {m : Mode}
    (hq : text.head?.any (· ≠ '\'') = true) (h : scan .start text = (m, ts)) :
    scan .start (literal s ++ text) = (m, .string s :: ts) := by
  cases text with
  | nil => cases hq
  | cons c cs =>
    have hc : c ≠ '\'' := of_decide_eq_true hq
    rw [scan_append, scan_literal, scan_closing hc, h]
    rfl

structure Piece (text : List Char) (ts : List Token) : Prop where
  head : text.head?.any (· ≠ '\'') = true
  scan : scan .start text = (.start, ts)

instance (text : List Char) (ts : List Token) : Decidable (Piece text ts) :=
  decidable_of_iff (text.head?.any (· ≠ '\'') = true ∧ SqlText.scan .start text = (.start, ts))
    ⟨fun h => ⟨h.1, h.2⟩, fun h => ⟨h.head, h.scan⟩⟩

theorem Piece.scan_append {text rest : List Char} {ts ts' : List Token} {m : Mode}
    (h : Piece text ts) (hr : SqlText.scan .start rest = (m, ts')) :
    SqlText.scan .start (text ++ rest) = (m, ts ++ ts') := by
  rw [SqlText.scan_append, h.scan, hr]

theorem Piece.scan_literal {s text rest : List Char} {ts ts' : List Token} {m : Mode}
    (h : Piece text ts) (hr : SqlText.scan .start rest = (m, ts')) :
    SqlText.scan .start (literal s ++ (text ++ rest)) = (m, .string s :: (ts ++ ts')) := by
  refine scan_literal_append ?_ (h.scan_append hr)
  have hhead := h.head
  cases text with
  | nil => cases hhead
  | cons c cs => exact hhead

/-- A blank or a parenthesis ends what the mode is in the middle of. -/
structure Ends (m : Mode) (ts : List Token) : Prop where
  finish : finish m = some ts
  step : ∀ c, c = ' ' ∨ c = ')' → step m c = (begin c, ts)

/-- The text is scanned into the tokens, and a blank or a parenthesis may follow. -/
def Scans (text : List Char) (ts : List Token) : Prop :=
  ∃ m a b, scan .start text = (m, a) ∧ Ends m b ∧ ts = a ++ b

theorem ends_closing (s : List Char) : Ends (.closing '\'' s) [.string s] where
  finish := rfl
  step := by
    rintro c (rfl | rfl) <;> rfl

theorem ends_word (text : List Char) : Ends (.word text) [.word text] where
  finish := rfl
  step := by
    rintro c (rfl | rfl) <;> rfl

theorem ends_parenthesis : Ends (.operator ")".toList) [.operator ")".toList] where
  finish := rfl
  step := by
    rintro c (rfl | rfl) <;> decide

theorem scans_literal (s : List Char) : Scans (literal s) [.string s] :=
  ⟨_, [], _, scan_literal s, ends_closing s, rfl⟩

theorem Scans.scan_append {text rest : List Char} {ts : List Token} {c : Char}
    (h : Scans text ts) (hc : c = ' ' ∨ c = ')') :
    scan .start (text ++ c :: rest)
      = ((scan .start (c :: rest)).1, ts ++ (scan .start (c :: rest)).2) := by
  obtain ⟨m, a, b, hscan, hends, rfl⟩ := h
  rw [SqlText.scan_append, hscan]
  simp [scan, hends.step c hc]

theorem Scans.scan_blank {text rest : List Char} {ts ts' : List Token} {m : Mode}
    (h : Scans text ts) (hr : scan .start rest = (m, ts')) :
    scan .start (text ++ ' ' :: rest) = (m, ts ++ ts') := by
  rw [h.scan_append (.inl rfl), SqlText.scan_blank, hr]

theorem Scans.tokens {text : List Char} {ts : List Token} (h : Scans text ts)
    (hnul : '\x00' ∉ text) : tokens text = some ts := by
  obtain ⟨m, a, b, hscan, hends, rfl⟩ := h
  have htake : text.takeWhile (· ≠ '\x00') = text := by
    refine List.takeWhile_eq_self_iff.2 fun c hc => ?_
    exact decide_eq_true fun he => hnul (he ▸ hc)
  simp only [SqlText.tokens, htake, hscan, hends.finish, Option.map_some]

theorem scan_parenthesis {text : List Char} {ts : List Token} {m : Mode} (hne : text ≠ [])
    (h : scan .start text = (m, ts)) :
    scan .start ('(' :: text) = (m, .operator "(".toList :: ts) := by
  obtain ⟨c, cs, rfl⟩ := List.exists_cons_of_ne_nil hne
  have hbegin : begin '(' = .operator ['('] := rfl
  have hlong : ['(', c] ∉ longOperators := by
    simp [longOperators]
  simp only [scan, step_start, List.nil_append, Prod.mk.injEq] at h
  simp [scan, hbegin, step, hlong, h]

theorem Scans.parenthesised {text : List Char} {ts : List Token} (h : Scans text ts) :
    Scans ('(' :: (text ++ [')'])) (.operator "(".toList :: (ts ++ [.operator ")".toList])) := by
  refine ⟨.operator ")".toList, .operator "(".toList :: ts, _, ?_, ends_parenthesis, rfl⟩
  have hbegin : begin ')' = .operator ")".toList := rfl
  refine scan_parenthesis (by simp) ?_
  rw [h.scan_append (.inr rfl)]
  simp [scan, hbegin]

/-- A statement up to a place where an expression may stand: after a blank, or a parenthesis
after one. -/
inductive Opens : List Char → List Token → Prop
  | blank {before : List Char} {a : List Token} (h : scan .start before = (.start, a)) :
    Opens before a
  | parenthesis {before : List Char} {a : List Token} (h : scan .start before = (.start, a)) :
    Opens (before ++ "(".toList) (a ++ [.operator "(".toList])

theorem Opens.scan_append {before text : List Char} {a : List Token} (h : Opens before a)
    (hne : text ≠ []) :
    scan .start (before ++ text) = ((scan .start text).1, a ++ (scan .start text).2) := by
  cases h with
  | blank h => rw [SqlText.scan_append, h]
  | @parenthesis before a h =>
    have hparen : "(".toList ++ text = '(' :: text := rfl
    rw [List.append_assoc, hparen, SqlText.scan_append, h, scan_parenthesis hne rfl, List.append_assoc]
    rfl

theorem Scans.tokens_surrounded {before text after : List Char} {a ts : List Token} {c : Char}
    (h : Scans text ts) (hb : Opens before a) (hc : c = ' ' ∨ c = ')')
    (hbefore : '\x00' ∉ before) (htext : '\x00' ∉ text) :
    SqlText.tokens (before ++ (text ++ c :: after))
      = (SqlText.tokens (c :: after)).map fun b => a ++ (ts ++ b) := by
  have htake : ∀ {l : List Char}, '\x00' ∉ l → ∀ x ∈ l, decide (x ≠ '\x00') = true :=
    fun hl x hx => decide_eq_true fun he => hl (he ▸ hx)
  have hcons : (c :: after).takeWhile (· ≠ '\x00') = c :: after.takeWhile (· ≠ '\x00') := by
    rcases hc with rfl | rfl <;> rfl
  simp only [SqlText.tokens, List.takeWhile_append_of_pos (htake hbefore),
    List.takeWhile_append_of_pos (htake htext), hcons]
  rw [hb.scan_append (by simp), h.scan_append hc, Option.map_map]
  exact congrArg (Option.map · _) (funext fun l => by simp)

structure Separates (sep : List Char) (t : Token) : Prop where
  blank : sep.head? = some ' '
  scan : scan .start sep = (.start, [t])

instance (sep : List Char) (t : Token) : Decidable (Separates sep t) :=
  decidable_of_iff (sep.head? = some ' ' ∧ SqlText.scan .start sep = (.start, [t]))
    ⟨fun h => ⟨h.1, h.2⟩, fun h => ⟨h.blank, h.scan⟩⟩

theorem Scans.append {text text' sep : List Char} {ts ts' : List Token} {t : Token}
    (h : Scans text ts) (h' : Scans text' ts') (hsep : Separates sep t) :
    Scans (text ++ (sep ++ text')) (ts ++ t :: ts') := by
  obtain ⟨m, a, b, hscan, hends, rfl⟩ := h'
  refine ⟨m, ts ++ t :: a, b, ?_, hends, by simp⟩
  obtain ⟨cs, hcs⟩ := List.head?_eq_some_iff.1 hsep.blank
  have hsep' : SqlText.scan .start (sep ++ text') = (m, t :: a) := by
    rw [SqlText.scan_append, hsep.scan, hscan]
    rfl
  rw [hcs, List.cons_append] at hsep' ⊢
  rw [h.scan_append (.inl rfl), hsep']

def join {α : Type*} (sep : List α) : List (List α) → List α
  | [] => []
  | [x] => x
  | x :: y :: xs => x ++ (sep ++ join sep (y :: xs))

theorem scans_join {sep : List Char} {t : Token} (hsep : Separates sep t) :
    ∀ {texts : List (List Char)} {tss : List (List Token)}, List.Forall₂ Scans texts tss →
      texts ≠ [] → Scans (join sep texts) (join [t] tss)
  | [_], [_], h, _ => by
    obtain ⟨h, -⟩ := List.forall₂_cons.1 h
    exact h
  | _ :: _ :: _, _ :: _ :: _, h, _ => by
    obtain ⟨h, hs⟩ := List.forall₂_cons.1 h
    exact h.append (scans_join hsep hs (by simp)) hsep

inductive BinaryOperator where
  | or | and | eq | ne | lt | le | gt | ge | arrow | collate
  deriving DecidableEq, Repr

def BinaryOperator.precedence : BinaryOperator → ℕ
  | or => 1
  | and => 2
  | eq | ne => 3
  | lt | le | gt | ge => 4
  | arrow => 5
  | collate => 6

def Token.upper : Token → Token
  | .word text => .word (text.map Char.toUpper)
  | t => t

def reserved : List (List Char) :=
  ["AND", "AS", "COLLATE", "ELSE", "END", "OR", "THEN", "WHEN"].map String.toList

/-- The operator a token stands for after an operand. -/
def binaryOperator (t : Token) : Option BinaryOperator :=
  if t = .word "OR".toList then some .or
  else if t = .word "AND".toList then some .and
  else if t = .word "COLLATE".toList then some .collate
  else if t = .operator "=".toList then some .eq
  else if t = .operator "<>".toList then some .ne
  else if t = .operator "<".toList then some .lt
  else if t = .operator "<=".toList then some .le
  else if t = .operator ">".toList then some .gt
  else if t = .operator ">=".toList then some .ge
  else if t = .operator "->".toList then some .arrow
  else none

inductive Expr where
  | word (text : List Char)
  | string (content : List Char)
  | paren (e : Expr)
  | call (name : List Char) (args : List Expr)
  | cast (e type : Expr)
  /-- `CASE e WHEN v THEN r ... ELSE r END`. -/
  | caseOf (e : Expr) (arms : List (Expr × Expr)) (otherwise : Option Expr)
  | binary (op : BinaryOperator) (left right : Expr)

-- The expression with every string literal emptied.
mutual

def Expr.blank : Expr → Expr
  | .word text => .word text
  | .string _ => .string []
  | .paren e => .paren e.blank
  | .call name args => .call name (blankArgs args)
  | .cast e type => .cast e.blank type.blank
  | .caseOf e arms otherwise => .caseOf e.blank (blankArms arms) (blankOtherwise otherwise)
  | .binary op left right => .binary op left.blank right.blank

def blankArgs : List Expr → List Expr
  | [] => []
  | e :: es => e.blank :: blankArgs es

def blankArms : List (Expr × Expr) → List (Expr × Expr)
  | [] => []
  | (value, e) :: arms => (value.blank, e.blank) :: blankArms arms

def blankOtherwise : Option Expr → Option Expr
  | none => none
  | some e => some e.blank

end

inductive Frame where
  | paren
  | call (name : List Char) (args : List Expr)
  | cast
  | castAs (e : Expr)
  | caseOf
  | caseWhen (e : Expr) (arms : List (Expr × Expr))
  | caseThen (e : Expr) (arms : List (Expr × Expr)) (value : Expr)
  | caseElse (e : Expr) (arms : List (Expr × Expr))
  | binary (op : BinaryOperator) (left : Expr)

/-- The frames from the inside out, and the operand before the place, if there is one. -/
structure State where
  frames : List Frame
  operand : Option Expr

/-- The operators that bind at least as tightly take the operand as their right one. -/
def close (p : ℕ) : List Frame → Expr → List Frame × Expr
  | .binary op left :: frames, e =>
    if p ≤ op.precedence then close p frames (.binary op left e) else (.binary op left :: frames, e)
  | frames, e => (frames, e)

def readOperand (frames : List Frame) : Token → Option State
  | .string content => some ⟨frames, some (.string content)⟩
  | .word text =>
    if text.map Char.toUpper = "CASE".toList then some ⟨.caseOf :: frames, none⟩
    else if reserved.contains (text.map Char.toUpper) then none
    else some ⟨frames, some (.word text)⟩
  | .operator text => if text = "(".toList then some ⟨.paren :: frames, none⟩ else none
  | .quotedName content => some ⟨frames, some (.word content)⟩

/-- A token that closes what is open, after an operand. -/
def readClosing (t : Token) (e : Expr) : List Frame → Option State
  | .paren :: frames => if t = .operator ")".toList then some ⟨frames, some (.paren e)⟩ else none
  | .call name args :: frames =>
    if t = .operator ")".toList then some ⟨frames, some (.call name (args ++ [e]))⟩
    else if t = .operator ",".toList then some ⟨.call name (args ++ [e]) :: frames, none⟩
    else none
  | .cast :: frames => if t = .word "AS".toList then some ⟨.castAs e :: frames, none⟩ else none
  | .castAs e' :: frames =>
    if t = .operator ")".toList then some ⟨frames, some (.cast e' e)⟩ else none
  | .caseOf :: frames =>
    if t = .word "WHEN".toList then some ⟨.caseWhen e [] :: frames, none⟩ else none
  | .caseWhen e' arms :: frames =>
    if t = .word "THEN".toList then some ⟨.caseThen e' arms e :: frames, none⟩ else none
  | .caseThen e' arms value :: frames =>
    if t = .word "WHEN".toList then some ⟨.caseWhen e' (arms ++ [(value, e)]) :: frames, none⟩
    else if t = .word "ELSE".toList then some ⟨.caseElse e' (arms ++ [(value, e)]) :: frames, none⟩
    else if t = .word "END".toList then
      some ⟨frames, some (.caseOf e' (arms ++ [(value, e)]) none)⟩
    else none
  | .caseElse e' arms :: frames =>
    if t = .word "END".toList then some ⟨frames, some (.caseOf e' arms (some e))⟩ else none
  | .binary _ _ :: _ => none
  | [] => none

/-- A parenthesis after a name opens its arguments. -/
def readCall (frames : List Frame) (t : Token) : Expr → Option State
  | .word name =>
    if t = .operator "(".toList then
      some ⟨(if name.map Char.toUpper = "CAST".toList then .cast else .call name []) :: frames,
        none⟩
    else none
  | _ => none

def read (s : State) (t : Token) : Option State :=
  match s.operand with
  | none => readOperand s.frames t
  | some e =>
    match readCall s.frames t e with
    | some s => some s
    | none =>
      match binaryOperator t.upper with
      | some op =>
        let r := close op.precedence s.frames e
        some ⟨.binary op r.2 :: r.1, none⟩
      | none =>
        let r := close 0 s.frames e
        readClosing t.upper r.2 r.1

def parse : State → List Token → Option State
  | s, [] => some s
  | s, t :: ts => (read s t).bind fun s => parse s ts

def expression (ts : List Token) : Option Expr :=
  match parse ⟨[], none⟩ ts with
  | some ⟨frames, some e⟩ =>
    match close 0 frames e with
    | ([], e) => some e
    | _ => none
  | _ => none

theorem parse_append : ∀ {ts ts' : List Token} {s : State},
    parse s (ts ++ ts') = (parse s ts).bind fun s => parse s ts'
  | [], _, _ => rfl
  | t :: ts, ts', s => by
    simp only [List.cons_append, parse, Option.bind_assoc]
    exact congrArg _ (funext fun s => parse_append)

/-- No operator but `AND` and `OR` stands open on the inside. -/
def Loose (frames : List Frame) : Prop := ∀ p > 2, ∀ e, close p frames e = (frames, e)

/-- The tokens are read as one operand of `AND` and `OR`. -/
def Reads (ts : List Token) (e : Expr) : Prop :=
  ∀ frames, Loose frames → ∃ inner e', parse ⟨frames, none⟩ ts = some ⟨inner ++ frames, some e'⟩ ∧
    ∀ p ≤ 2, close p (inner ++ frames) e' = close p frames e

/-- The left operand of a chain is the chain before it. -/
def chain (op : BinaryOperator) : List Expr → Expr
  | [] => .word []
  | e :: es => es.foldl (.binary op) e

theorem blank_foldl (op : BinaryOperator) : ∀ (es : List Expr) (e : Expr),
    (es.foldl (.binary op) e).blank = (es.map Expr.blank).foldl (.binary op) e.blank
  | [], _ => rfl
  | e' :: es, e => by
    rw [List.foldl_cons, blank_foldl op es, List.map_cons, List.foldl_cons, Expr.blank]

theorem blank_chain (op : BinaryOperator) : ∀ es : List Expr,
    (chain op es).blank = chain op (es.map Expr.blank)
  | [] => rfl
  | e :: es => blank_foldl op es e

def Settled : List Frame → Prop
  | .binary _ _ :: _ => False
  | _ => True

theorem Settled.close {frames : List Frame} (h : Settled frames) (p : ℕ) (e : Expr) :
    close p frames e = (frames, e) := by
  match frames, h with
  | [], _ => rfl
  | .paren :: _, _ => rfl
  | .call _ _ :: _, _ => rfl
  | .cast :: _, _ => rfl
  | .castAs _ :: _, _ => rfl
  | .caseOf :: _, _ => rfl
  | .caseWhen _ _ :: _, _ => rfl
  | .caseThen _ _ _ :: _, _ => rfl
  | .caseElse _ _ :: _, _ => rfl

theorem Settled.loose {frames : List Frame} (h : Settled frames) : Loose frames :=
  fun p _ e => h.close p e

/-- A token that is an operator after every operand. -/
structure Joins (t : Token) (op : BinaryOperator) : Prop where
  operator : binaryOperator t.upper = some op
  ne : t ≠ .operator "(".toList
  le : op.precedence ≤ 2

theorem Joins.loose {t : Token} {op : BinaryOperator} (h : Joins t op) (e : Expr)
    (frames : List Frame) : Loose (.binary op e :: frames) := by
  intro p hp e'
  rw [close, if_neg (by have := h.le; omega)]

theorem readCall_eq_none {frames : List Frame} {t : Token} (h : t ≠ .operator "(".toList)
    (e : Expr) : readCall frames t e = none := by
  cases e with
  | word w => exact if_neg h
  | _ => rfl

theorem Joins.read {t : Token} {op : BinaryOperator} (h : Joins t op) {frames inner : List Frame}
    {e e' : Expr} (hc : SqlText.close op.precedence inner e' = (frames, e)) :
    read ⟨inner, some e'⟩ t = some ⟨.binary op e :: frames, none⟩ := by
  simp only [SqlText.read, readCall_eq_none h.ne, h.operator, hc]

theorem parse_operands {t : Token} {op : BinaryOperator} (h : Joins t op) {frames : List Frame}
    (hs : Settled frames) : ∀ {tss : List (List Token)} {es : List Expr} {acc e₁ : Expr}
      {inner : List Frame}, List.Forall₂ Reads tss es →
      (∀ p ≤ op.precedence, close p (inner ++ frames) e₁ = (frames, acc)) →
      ∃ inner' e₂, parse ⟨inner ++ frames, some e₁⟩ (tss.flatMap (t :: ·))
          = some ⟨inner' ++ frames, some e₂⟩ ∧
        ∀ p ≤ op.precedence, close p (inner' ++ frames) e₂ = (frames, es.foldl (.binary op) acc)
  | [], [], acc, e₁, inner, _, hc => ⟨inner, e₁, rfl, hc⟩
  | ts :: tss, e :: es, acc, e₁, inner, hr, hc => by
    obtain ⟨hr, hrs⟩ := List.forall₂_cons.1 hr
    obtain ⟨inner', e₂, hparse, hclose⟩ := hr _ (h.loose acc frames)
    have hclose' : ∀ p ≤ op.precedence, close p ((inner' ++ [.binary op acc]) ++ frames) e₂
        = (frames, .binary op acc e) := by
      intro p hp
      rw [List.append_assoc, List.singleton_append, hclose p (hp.trans h.le), close, if_pos hp,
        hs.close]
    obtain ⟨inner'', e₃, hparse', hclose''⟩ := parse_operands h hs hrs hclose'
    refine ⟨inner'', e₃, ?_, hclose''⟩
    rw [List.append_assoc, List.singleton_append] at hparse'
    rw [List.flatMap_cons, List.cons_append, parse, h.read (hc _ le_rfl), Option.bind_some,
      parse_append, hparse, Option.bind_some, hparse']

theorem join_cons {α : Type*} (sep x : List α) : ∀ xs : List (List α),
    join sep (x :: xs) = x ++ xs.flatMap (sep ++ ·)
  | [] => by simp [join]
  | y :: xs => by
    rw [join, join_cons sep y xs, List.flatMap_cons, List.append_assoc]

theorem parse_chain {t : Token} {op : BinaryOperator} (h : Joins t op) {frames : List Frame}
    (hs : Settled frames) {tss : List (List Token)} {es : List Expr}
    (hr : List.Forall₂ Reads tss es) (hne : tss ≠ []) :
    ∃ inner e, parse ⟨frames, none⟩ (join [t] tss) = some ⟨inner ++ frames, some e⟩ ∧
      ∀ p ≤ op.precedence, close p (inner ++ frames) e = (frames, chain op es) := by
  match tss, es, hr, hne with
  | ts :: tss, e :: es, hr, _ =>
    obtain ⟨hr, hrs⟩ := List.forall₂_cons.1 hr
    obtain ⟨inner, e₁, hparse, hclose⟩ := hr frames hs.loose
    obtain ⟨inner', e₂, hparse', hclose'⟩ := parse_operands h hs hrs
      fun p hp => (hclose p (hp.trans h.le)).trans (hs.close p e)
    refine ⟨inner', e₂, ?_, hclose'⟩
    rw [join_cons, parse_append, hparse, Option.bind_some]
    exact hparse'

theorem reads_paren {ts : List Token} {e : Expr}
    (h : ∀ frames, Settled frames → ∃ inner e', parse ⟨frames, none⟩ ts
      = some ⟨inner ++ frames, some e'⟩ ∧ close 0 (inner ++ frames) e' = (frames, e)) :
    Reads (.operator "(".toList :: (ts ++ [.operator ")".toList])) (.paren e) := by
  intro frames _
  obtain ⟨inner, e', hparse, hclose⟩ := h (.paren :: frames) trivial
  refine ⟨[], .paren e, ?_, fun p _ => rfl⟩
  have hopen : read ⟨frames, none⟩ (.operator "(".toList) = some ⟨.paren :: frames, none⟩ := rfl
  have hcall : readCall (inner ++ .paren :: frames) (.operator ")".toList) e' = none :=
    readCall_eq_none (by decide) e'
  have hop : binaryOperator (Token.operator ")".toList).upper = none := by decide
  rw [parse, hopen, Option.bind_some, parse_append, hparse, Option.bind_some]
  simp only [parse, read, hcall, hop, hclose]
  rfl

theorem expression_chain {t : Token} {op : BinaryOperator} (h : Joins t op)
    {tss : List (List Token)} {es : List Expr} (hr : List.Forall₂ Reads tss es) (hne : tss ≠ []) :
    expression (join [t] tss) = some (chain op es) := by
  obtain ⟨inner, e, hparse, hclose⟩ := @parse_chain t op h [] trivial tss es hr hne
  simp only [expression, hparse, hclose 0 (Nat.zero_le _)]

end SqlText
