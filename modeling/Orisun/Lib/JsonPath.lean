import Mathlib.Data.List.Basic

/-!
# JSON paths

A path is `$` and steps to a member or an item. The label of a member may stand between double
quotes: it ends at the first quote that no backslash precedes, and its escapes are decoded as those
of a JSON string.
-/

namespace JsonPath

/-- The statement that follows the path fails. -/
inductive PathError where
  | badPath
  deriving DecidableEq, Repr

/-- How a document is entered: at a member's name, and by its items where it is an array. -/
structure Access (δ : Type) where
  member : δ → List Char → Option δ
  items : δ → Option (List δ)

def hexValue (c : Char) : Option ℕ :=
  if c.isDigit then some (c.toNat - '0'.toNat)
  else if 'a' ≤ c ∧ c ≤ 'f' then some (c.toNat - 'a'.toNat + 10)
  else if 'A' ≤ c ∧ c ≤ 'F' then some (c.toNat - 'A'.toNat + 10)
  else none

def codeUnit (a b c d : Char) : Option ℕ := do
  return ((((← hexValue a) * 16 + (← hexValue b)) * 16 + (← hexValue c)) * 16 + (← hexValue d))

def unescape : Char → Option Char
  | '"' => some '"'
  | '\\' => some '\\'
  | '/' => some '/'
  | 'b' => some '\x08'
  | 'f' => some '\x0c'
  | 'n' => some '\n'
  | 'r' => some '\r'
  | 't' => some '\t'
  | _ => none

def surrogatePair (high low : ℕ) : Option Char :=
  if 0xD800 ≤ high ∧ high < 0xDC00 ∧ 0xDC00 ≤ low ∧ low < 0xE000 then
    some (Char.ofNat (0x10000 + (high - 0xD800) * 0x400 + (low - 0xDC00)))
  else none

/-- The character of a code unit that is no surrogate. -/
def plainUnit (n : ℕ) : Option Char :=
  if 0xD800 ≤ n ∧ n < 0xE000 then none else some (Char.ofNat n)

def decode : List Char → Option (List Char)
  | [] => some []
  | '\\' :: 'u' :: a :: b :: c :: d :: '\\' :: 'u' :: a' :: b' :: c' :: d' :: cs =>
    match (codeUnit a b c d).bind plainUnit with
    | some x => (decode ('\\' :: 'u' :: a' :: b' :: c' :: d' :: cs)).map (x :: ·)
    | none => do
      let x ← surrogatePair (← codeUnit a b c d) (← codeUnit a' b' c' d')
      (decode cs).map (x :: ·)
  | '\\' :: 'u' :: a :: b :: c :: d :: cs => do
    let x ← (codeUnit a b c d).bind plainUnit
    (decode cs).map (x :: ·)
  | '\\' :: c :: cs => do
    let x ← unescape c
    (decode cs).map (x :: ·)
  | c :: cs => if c = '\\' then none else (decode cs).map (c :: ·)

/-- The label and what follows its closing quote; `previous` is the character before. -/
def splitLabel (previous : Char) : List Char → Option (List Char × List Char)
  | [] => none
  | c :: cs =>
    if c = '"' ∧ previous ≠ '\\' then some ([], cs)
    else (splitLabel c cs).map fun r => (c :: r.1, r.2)

def digits (cs : List Char) : Option ℕ :=
  if cs = [] then none
  else if cs.all Char.isDigit then some (cs.foldl (fun n c => n * 10 + (c.toNat - '0'.toNat)) 0)
  else none

/-- The item a bracket's text selects, also counted from the end; `none` for another text. -/
def bracketItem {δ : Type} (items : List δ) : List Char → Option (Option δ)
  | ['#'] => some none
  | '#' :: '-' :: cs => (digits cs).map fun i => if i = 0 then none else items.reverse[i - 1]?
  | cs => (digits cs).map (items[·]?)

def labelEnd (c : Char) : Bool := c == '.' || c == '['

/-- What a text of steps, each of at least one character, leads to from a document: nothing once a
step finds nothing, and an error once a step that is reached is malformed. -/
def follow {δ : Type} (A : Access δ) : ℕ → List Char → δ → Except PathError (Option δ)
  | _, [], d => .ok (some d)
  | 0, _ :: _, _ => .error .badPath
  | n + 1, '.' :: '"' :: cs, d =>
    match splitLabel '"' cs with
    | none => .error .badPath
    | some (label, rest) =>
      match (decode label).bind (A.member d) with
      | none => .ok none
      | some v => follow A n rest v
  | n + 1, '.' :: cs, d =>
    if cs.takeWhile (!labelEnd ·) = [] then .error .badPath
    else
      match A.member d (cs.takeWhile (!labelEnd ·)) with
      | none => .ok none
      | some v => follow A n (cs.dropWhile (!labelEnd ·)) v
  | n + 1, '[' :: cs, d =>
    match A.items d with
    | none => .ok none
    | some items =>
      match bracketItem items (cs.takeWhile (· ≠ ']')), cs.dropWhile (· ≠ ']') with
      | some (some v), _ :: rest => follow A n rest v
      | some none, _ :: _ => .ok none
      | _, _ => .error .badPath
  | _ + 1, _ :: _, _ => .error .badPath

def walk {δ : Type} (A : Access δ) (d : δ) : List Char → Except PathError (Option δ)
  | '$' :: cs => follow A cs.length cs d
  | _ => .error .badPath

def doubled (name : List Char) : List Char := name.flatMap fun c => if c = '"' then [c, c] else [c]

/-- The path of a name between quotes, with its own quotes doubled. -/
def doubledPath (name : List Char) : List Char := '$' :: '.' :: '"' :: (doubled name ++ ['"'])

theorem length_decode : ∀ {s t : List Char}, decode s = some t →
    t.length ≤ s.length ∧ ('\\' ∈ s → t.length < s.length) := by
  intro s
  fun_induction decode s with
  | case1 => simp
  | case2 a b c d a' b' c' d' cs x hx ih =>
    intro t h
    obtain ⟨t, ht, rfl⟩ := Option.map_eq_some_iff.1 h
    have := (ih ht).1
    simp only [List.length_cons] at this ⊢
    omega
  | case3 a b c d a' b' c' d' cs hx ih =>
    intro t h
    simp only [Option.bind_eq_bind, Option.bind_eq_some_iff, Option.map_eq_some_iff] at h
    obtain ⟨_, -, _, -, x, -, t, ht, rfl⟩ := h
    have := (ih ht).1
    simp only [List.length_cons]
    omega
  | case4 a b c d cs _ ih =>
    intro t h
    simp only [Option.bind_eq_bind, Option.bind_eq_some_iff, Option.map_eq_some_iff] at h
    obtain ⟨x, -, t, ht, rfl⟩ := h
    have := (ih ht).1
    simp only [List.length_cons]
    omega
  | case5 c cs _ _ ih =>
    intro t h
    simp only [Option.bind_eq_bind, Option.bind_eq_some_iff, Option.map_eq_some_iff] at h
    obtain ⟨x, -, t, ht, rfl⟩ := h
    have := (ih ht).1
    simp only [List.length_cons]
    omega
  | case6 => simp
  | case7 c cs _ _ _ hc ih =>
    intro t h
    obtain ⟨t, ht, rfl⟩ := Option.map_eq_some_iff.1 h
    obtain ⟨hle, hlt⟩ := ih ht
    simp only [List.length_cons, List.mem_cons, Nat.add_lt_add_iff_right, Nat.add_le_add_iff_right]
    exact ⟨hle, fun hmem => hlt (hmem.resolve_left (Ne.symm hc))⟩

theorem decode_of_notMem : ∀ {s : List Char}, '\\' ∉ s → decode s = some s := by
  intro s
  fun_induction decode s with
  | case1 => simp
  | case7 c cs _ _ _ hc ih =>
    intro h
    rw [ih fun hmem => h (List.mem_cons_of_mem c hmem)]
    rfl
  | _ => simp

theorem splitLabel_append : ∀ {a : List Char} {p : Char} (cs : List Char), '"' ∉ a →
    splitLabel p (a ++ cs) = (splitLabel (a.getLastD p) cs).map fun r => (a ++ r.1, r.2)
  | [], p, cs, _ => by simp
  | c :: a, p, cs, h => by
    have hc : c ≠ '"' := fun he => h (he ▸ List.mem_cons_self)
    rw [List.cons_append, splitLabel, if_neg fun hq => hc hq.1,
      splitLabel_append cs fun hmem => h (List.mem_cons_of_mem c hmem), Option.map_map]
    cases a <;> rfl

variable {δ : Type} {A : Access δ} {d v : δ}

/-- A step into a value without members and items finds nothing, or is malformed. -/
theorem follow_leaf (hmember : ∀ label, A.member v label = none) (hitems : A.items v = none)
    (n : ℕ) {cs : List Char} (hcs : cs ≠ []) (x : δ) : follow A n cs v ≠ .ok (some x) := by
  have hbind : ∀ label : Option (List Char), label.bind (A.member v) = none := by
    rintro (_ | label)
    · rfl
    · exact hmember label
  intro h
  unfold follow at h
  split at h
  · exact hcs rfl
  · cases h
  · split at h
    · cases h
    · rw [hbind] at h
      cases h
  · split_ifs at h
    rw [hmember] at h
    cases h
  · rw [hitems] at h
    cases h
  · cases h

theorem walk_doubledPath (name : List Char) : walk A d (doubledPath name) =
    match splitLabel '"' (doubled name ++ ['"']) with
    | none => .error .badPath
    | some (label, rest) =>
      match (decode label).bind (A.member d) with
      | none => .ok none
      | some v => follow A ((doubled name ++ ['"']).length + 1) rest v := rfl

variable {name : List Char}

theorem doubled_of_notMem (h : '"' ∉ name) : doubled name = name := by
  have hsingle : ∀ c ∈ name, (if c = '"' then [c, c] else [c]) = [c] := by
    intro c hc
    exact if_neg fun he : c = '"' => h (he ▸ hc)
  rw [doubled, List.flatMap_congr hsingle, List.flatMap_singleton']

/-- A label with a quote in it ends before the path does. -/
theorem splitLabel_doubled_of_quote (h : '"' ∈ name) {label rest : List Char}
    (hsplit : splitLabel '"' (doubled name ++ ['"']) = some (label, rest)) : rest ≠ [] := by
  obtain ⟨a, b, rfl, ha⟩ := List.eq_append_cons_of_mem h
  have hdoubled : doubled (a ++ '"' :: b) = a ++ '"' :: '"' :: doubled b := by
    rw [doubled, List.flatMap_append, ← doubled, doubled_of_notMem ha]
    rfl
  rw [hdoubled, List.append_assoc, splitLabel_append _ ha] at hsplit
  simp only [Option.map_eq_some_iff] at hsplit
  obtain ⟨⟨label, rest'⟩, hsplit, he⟩ := hsplit
  obtain ⟨-, rfl⟩ := Prod.mk.inj he
  dsimp only
  rintro rfl
  -- The first of the two quotes ends the label, or the second does.
  rw [List.cons_append, List.cons_append] at hsplit
  by_cases hlast : a.getLastD '"' = '\\'
  · rw [splitLabel, if_neg fun hq => hq.2 hlast, splitLabel, if_pos ⟨rfl, by decide⟩] at hsplit
    simp at hsplit
  · rw [splitLabel, if_pos ⟨rfl, hlast⟩] at hsplit
    simp at hsplit

/-- A label with a backslash in it and no quote is decoded to another name. -/
theorem decode_of_backslash (hq : '"' ∉ name) (h : '\\' ∈ name) {label rest : List Char}
    (hsplit : splitLabel '"' (doubled name ++ ['"']) = some (label, rest)) :
    decode label ≠ some name := by
  intro hdecode
  rw [doubled_of_notMem hq, splitLabel_append _ hq] at hsplit
  simp only [splitLabel] at hsplit
  split_ifs at hsplit
  · simp only [Option.map_some, Option.some.injEq, Prod.mk.injEq, List.append_nil] at hsplit
    obtain ⟨rfl, -⟩ := hsplit
    exact absurd ((length_decode hdecode).2 h) (Nat.lt_irrefl _)
  · simp at hsplit

/-- The path of a name with a quote or a backslash does not lead to a value without members and
items that is the only one of its document. -/
theorem walk_ne_of_special (h : '"' ∈ name ∨ '\\' ∈ name)
    (hd : ∀ label, A.member d label = if label = name then some v else none)
    (hmember : ∀ label, A.member v label = none) (hitems : A.items v = none) (x : δ) :
    walk A d (doubledPath name) ≠ .ok (some x) := by
  intro hwalk
  rw [walk_doubledPath] at hwalk
  split at hwalk
  · cases hwalk
  · rename_i label rest hsplit
    rcases hdecode : decode label with _ | name'
    · rw [hdecode] at hwalk
      cases hwalk
    · rw [hdecode, Option.bind_some, hd] at hwalk
      by_cases hname : name' = name
      · subst hname
        rw [if_pos rfl] at hwalk
        have hq : '"' ∈ name' := by
          by_contra hq
          exact decode_of_backslash hq (h.resolve_left hq) hsplit hdecode
        exact follow_leaf hmember hitems _ (splitLabel_doubled_of_quote hq hsplit) x hwalk
      · rw [if_neg hname] at hwalk
        cases hwalk

/-- The path of a plain name leads to the member of that name. -/
theorem walk_of_plain (hq : '"' ∉ name) (hb : '\\' ∉ name) :
    walk A d (doubledPath name) = .ok (A.member d name) := by
  have hlast : name.getLastD '"' ≠ '\\' := by
    intro he
    rcases List.eq_nil_or_concat name with rfl | ⟨l, c, rfl⟩
    · exact absurd he (by decide)
    · rw [List.concat_eq_append, List.getLastD_concat] at he
      exact hb (by simp [he])
  have hsplit : splitLabel '"' (doubled name ++ ['"']) = some (name, []) := by
    rw [doubled_of_notMem hq, splitLabel_append _ hq, splitLabel, if_pos ⟨rfl, hlast⟩]
    simp
  rw [walk_doubledPath, hsplit]
  dsimp only
  rw [decode_of_notMem hb, Option.bind_some]
  rcases A.member d name with _ | v
  · rfl
  · rfl

end JsonPath
