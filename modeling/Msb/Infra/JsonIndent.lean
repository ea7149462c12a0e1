import Msb.Infra.JsonRoundtrip

/-!
# Indented JSON

`json.dumps(v, indent=2)`: every element and every member on a line of its own, two blanks deeper
than what holds it. Text is escaped as ASCII, so a high surrogate with a low one after it is read as
one character.

* `parse_renderIndent` — what the reader makes of an indented tree
-/

namespace Py

/-! ## Writing -/

theorem isWs_space : ∀ c ∈ ([32] : Str), isWs c = true := by simp [isWs]

/-- The style of what stands on one line. -/
def lineStyle : JsonStyle := ⟨[32], [32], true, isWs_space, isWs_space⟩

/-- The line break before what is one level deeper. -/
def deeper (pad : Str) : Str := pad ++ [32, 32]

mutual

/-- The text of a tree. `pad` is the line break before the closing bracket. -/
def renderIndent (pad : Str) : Json → Str
  | .null => render lineStyle .null
  | .bool b => render lineStyle (.bool b)
  | .int i => render lineStyle (.int i)
  | .float f => render lineStyle (.float f)
  | .str s => quote true s
  | .arr [] => [91, 93]
  | .arr (x :: xs) => 91 :: (deeper pad ++ (renderIndent (deeper pad) x ++ arrIndentTail pad xs))
  | .obj [] => [123, 125]
  | .obj ((k, v) :: kvs) =>
    123 :: (deeper pad ++
      (quote true k ++ 58 :: ([32] ++ (renderIndent (deeper pad) v ++ objIndentTail pad kvs))))

/-- The elements after the first one, and the closing bracket. -/
def arrIndentTail (pad : Str) : List Json → Str
  | [] => pad ++ [93]
  | x :: xs => 44 :: (deeper pad ++ (renderIndent (deeper pad) x ++ arrIndentTail pad xs))

/-- The members after the first one, and the closing brace. -/
def objIndentTail (pad : Str) : List (Str × Json) → Str
  | [] => pad ++ [125]
  | (k, v) :: kvs =>
    44 :: (deeper pad ++
      (quote true k ++ 58 :: ([32] ++ (renderIndent (deeper pad) v ++ objIndentTail pad kvs))))

end

/-! ## Surrogates -/

def IsHigh (c : CodePoint) : Prop := 0xD800 ≤ c.val ∧ c.val ≤ 0xDBFF

def IsLow (c : CodePoint) : Prop := 0xDC00 ≤ c.val ∧ c.val ≤ 0xDFFF

instance : DecidablePred IsHigh := fun _ => inferInstanceAs (Decidable (_ ∧ _))

instance : DecidablePred IsLow := fun _ => inferInstanceAs (Decidable (_ ∧ _))

/-- A string as it is read back from ASCII: a high surrogate joins with a low one after it. -/
def joinSurrogates : Str → Str
  | c :: d :: s =>
    if IsHigh c ∧ IsLow d then
      Fin.ofNat _ (0x10000 + (c.val - 0xD800) * 1024 + (d.val - 0xDC00)) :: joinSurrogates s
    else c :: joinSurrogates (d :: s)
  | s => s

theorem joinSurrogates_of_unpaired : ∀ {s : Str}, Unpaired s → joinSurrogates s = s
  | [], _ => rfl
  | [_], _ => rfl
  | c :: d :: s, h => by
    have hpair : ¬ (IsHigh c ∧ IsLow d) := (List.isChain_cons_cons.mp h).1
    rw [joinSurrogates, if_neg hpair, joinSurrogates_of_unpaired (List.isChain_cons_cons.mp h).2]

theorem escapeChar_surrogate {c : CodePoint} (h : 0xD800 ≤ c.val ∧ c.val ≤ 0xDFFF) :
    escapeChar true c = uEscape c.val := by
  have hne : ∀ w : CodePoint, w.val < 0xD800 → c ≠ w := by
    rintro w hw rfl
    omega
  unfold escapeChar
  rw [if_neg (hne 34 (by decide)), if_neg (hne 92 (by decide)), if_neg (hne 10 (by decide)),
    if_neg (hne 13 (by decide)), if_neg (hne 9 (by decide)), if_neg (hne 12 (by decide)),
    if_neg (hne 8 (by decide)), if_neg (by omega), if_pos (by simp; omega), if_pos (by omega)]

/-- **A string escaped as ASCII is read with its surrogates joined.** -/
theorem scanString_joinSurrogates (rest : Str) : ∀ s : Str,
    scanString (s.flatMap (escapeChar true) ++ 34 :: rest) = some (joinSurrogates s, rest)
  | [] => scanString_quote rest
  | [c] => by
    rw [List.flatMap_cons, List.flatMap_nil, List.append_nil,
      scanString_escapeChar fun _ _ => Or.inl (by simp), scanString_quote]
    rfl
  | c :: d :: s => by
    rw [joinSurrogates]
    by_cases hpair : IsHigh c ∧ IsLow d
    · obtain ⟨hhigh, hlow⟩ := hpair
      rw [if_pos ⟨hhigh, hlow⟩, List.flatMap_cons, List.flatMap_cons, List.append_assoc,
        List.append_assoc, escapeChar_surrogate ⟨hhigh.1, by have := hhigh.2; omega⟩,
        escapeChar_surrogate ⟨by have := hlow.1; omega, hlow.2⟩, scanString_joined hhigh hlow,
        scanString_joinSurrogates rest s, Option.map_some]
    · have hnext : true = true → (0xD800 ≤ c.val ∧ c.val ≤ 0xDBFF) →
          NotLow ((d :: s).flatMap (escapeChar true) ++ 34 :: rest) := by
        intro _ hhigh
        rw [List.flatMap_cons, List.append_assoc]
        exact notLow_escapeChar (fun hlow => hpair ⟨hhigh, hlow⟩) _
      rw [if_neg hpair, List.flatMap_cons, List.append_assoc, scanString_escapeChar hnext,
        scanString_joinSurrogates rest (d :: s), Option.map_some]

mutual

/-- A tree as it is read back from ASCII. -/
def Json.joined : Json → Json
  | .str s => .str (joinSurrogates s)
  | .arr xs => .arr (joinedElems xs)
  | .obj kvs => .obj (joinedMembers kvs)
  | j => j

def joinedElems : List Json → List Json
  | [] => []
  | x :: xs => x.joined :: joinedElems xs

def joinedMembers : List (Str × Json) → List (Str × Json)
  | [] => []
  | (k, v) :: kvs => (joinSurrogates k, v.joined) :: joinedMembers kvs

end

@[simp] theorem joinedElems_eq : ∀ xs, joinedElems xs = xs.map Json.joined
  | [] => rfl
  | x :: xs => by rw [joinedElems, joinedElems_eq xs, List.map_cons]

@[simp] theorem joinedMembers_eq :
    ∀ kvs, joinedMembers kvs = kvs.map fun p => (joinSurrogates p.1, p.2.joined)
  | [] => rfl
  | (k, v) :: kvs => by rw [joinedMembers, joinedMembers_eq kvs, List.map_cons]

/-- A tree without paired surrogates is read back as it is. -/
theorem joined_of_unpaired (j : Json) (h : j.Unpaired) : j.joined = j := by
  induction j using Json.ind with
  | hnull | hbool | hint | hfloat => rfl
  | hstr s => rw [Json.joined, joinSurrogates_of_unpaired h]
  | harr xs ih =>
    rw [Json.Unpaired, unpairedElems_iff] at h
    rw [Json.joined, joinedElems_eq, List.map_congr_left (g := id) fun x hx => ih x hx (h x hx),
      List.map_id]
  | hobj kvs ih =>
    rw [Json.Unpaired, unpairedMembers_iff] at h
    rw [Json.joined, joinedMembers_eq, List.map_congr_left (g := id) fun p hp => ?_, List.map_id]
    rw [joinSurrogates_of_unpaired (h p hp).1, ih p hp (h p hp).2]
    rfl

/-! ## Reading -/

variable {pad : Str}

theorem deeper_ws (hpad : ∀ c ∈ pad, isWs c = true) : ∀ c ∈ deeper pad, isWs c = true := by
  intro c hc
  rcases List.mem_append.mp hc with hc | hc
  · exact hpad c hc
  · simp only [List.mem_cons, List.not_mem_nil, or_false, or_self] at hc
    subst hc
    decide

theorem renderIndent_atom {j : Json} (hj : j.isAtom = true) :
    renderIndent pad j = render lineStyle j := by
  cases j with
  | null | bool | int | float => rfl
  | str s => cases hj
  | arr xs => cases hj
  | obj kvs => cases hj

theorem renderIndent_cons (pad : Str) (j : Json) :
    ∃ c t, renderIndent pad j = c :: t ∧ ValueHead c := by
  by_cases hj : j.isAtom = true
  · rw [renderIndent_atom hj]
    exact render_cons lineStyle j
  · cases j with
    | str s => exact ⟨34, _, rfl, by unfold ValueHead; decide⟩
    | arr xs =>
      cases xs with
      | nil => exact ⟨91, _, rfl, by unfold ValueHead; decide⟩
      | cons x xs => exact ⟨91, _, rfl, by unfold ValueHead; decide⟩
    | obj kvs =>
      cases kvs with
      | nil => exact ⟨123, _, rfl, by unfold ValueHead; decide⟩
      | cons p kvs => exact ⟨123, _, rfl, by unfold ValueHead; decide⟩
    | _ => exact absurd rfl hj

theorem skipWs_renderIndent (pad : Str) (j : Json) (s : Str) :
    skipWs (renderIndent pad j ++ s) = renderIndent pad j ++ s := by
  obtain ⟨c, t, ht, hc⟩ := renderIndent_cons pad j
  rw [ht, List.cons_append, skipWs_of_head hc.1]

/-- No number goes on with white space or a closing bracket. -/
theorem numEnd_ws {ws s : Str} (hws : ∀ c ∈ ws, isWs c = true) (hs : NumEnd s) :
    NumEnd (ws ++ s) := by
  cases ws with
  | nil => exact hs
  | cons d ws =>
    rintro c ⟨⟩
    have hd := hws d List.mem_cons_self
    simp only [isWs, Bool.or_eq_true, beq_iff_eq] at hd
    rcases hd with ((rfl | rfl) | rfl) | rfl <;> decide

theorem numEnd_arrIndentTail (hpad : ∀ c ∈ pad, isWs c = true) (xs : List Json) (rest : Str) :
    NumEnd (arrIndentTail pad xs ++ rest) := by
  cases xs with
  | nil =>
    rw [arrIndentTail, List.append_assoc]
    exact numEnd_ws hpad (by rintro c ⟨⟩; decide)
  | cons x xs => rintro c ⟨⟩; decide

theorem numEnd_objIndentTail (hpad : ∀ c ∈ pad, isWs c = true) (kvs : List (Str × Json))
    (rest : Str) : NumEnd (objIndentTail pad kvs ++ rest) := by
  cases kvs with
  | nil =>
    rw [objIndentTail, List.append_assoc]
    exact numEnd_ws hpad (by rintro c ⟨⟩; decide)
  | cons p kvs => rintro c ⟨⟩; decide

/-- Reading what was written for `j` gives `j` with its surrogates joined, whatever follows. -/
def ReadsIndented (j : Json) : Prop :=
  ∀ (pad : Str), (∀ c ∈ pad, isWs c = true) → ∀ (n : Nat) (rest : Str),
    (renderIndent pad j).length ≤ n → NumEnd rest →
      value n (renderIndent pad j ++ rest) = some (j.joined, rest)

theorem readsIndented_atom {j : Json} (hj : j.isAtom = true) : ReadsIndented j := by
  intro pad _ n rest hn hrest
  rw [renderIndent_atom hj] at hn ⊢
  rw [readsBack_atom lineStyle hj n rest hn hrest]
  cases j with
  | null | bool | int | float => rfl
  | str s => cases hj
  | arr xs => cases hj
  | obj kvs => cases hj

theorem elems_arrIndentTail {xs : List Json} (h : ∀ x ∈ xs, ReadsIndented x)
    (hpad : ∀ c ∈ pad, isWs c = true) :
    ∀ (n : Nat) (rest : Str), (arrIndentTail pad xs).length ≤ n →
      elems n (arrIndentTail pad xs ++ rest) = some (xs.map Json.joined, rest) := by
  induction xs with
  | nil =>
    intro n rest hn
    simp only [arrIndentTail, List.length_append, List.length_singleton] at hn
    obtain ⟨m, rfl⟩ := Nat.exists_eq_add_of_le' (show 1 ≤ n by omega)
    rw [arrIndentTail, List.append_assoc, elems, skipWs_append hpad, List.cons_append,
      List.nil_append, skipWs_of_head (by decide)]
    simp
  | cons x xs ih =>
    intro n rest hn
    simp only [arrIndentTail, List.length_cons, List.length_append] at hn
    obtain ⟨m, rfl⟩ := Nat.exists_eq_add_of_le' (show 1 ≤ n by omega)
    have hx := h x List.mem_cons_self (deeper pad) (deeper_ws hpad) m (arrIndentTail pad xs ++ rest)
      (by omega) (numEnd_arrIndentTail hpad _ _)
    have hxs := ih (fun y hy => h y (List.mem_cons_of_mem _ hy)) m rest (by omega)
    rw [arrIndentTail, List.cons_append, elems, skipWs_of_head (by decide)]
    simp only [if_neg (show ¬(44 : CodePoint) = 93 by decide), if_true, List.append_assoc,
      skipWs_append (deeper_ws hpad), skipWs_renderIndent, hx, hxs, Option.map_some, List.map_cons]

theorem member_renderIndent {k : Str} {v : Json} (h : ReadsIndented v)
    (hpad : ∀ c ∈ pad, isWs c = true)
    (n : Nat) (s : Str) (hn : (renderIndent pad v).length ≤ n) (hs : NumEnd s) :
    member (n + 1) (quote true k ++ 58 :: ([32] ++ (renderIndent pad v ++ s)))
      = some ((joinSurrogates k, v.joined), s) := by
  have hv := h pad hpad n s hn hs
  have hblank : ∀ c ∈ ([32] : Str), isWs c = true := by simp [isWs]
  rw [show quote true k ++ 58 :: ([32] ++ (renderIndent pad v ++ s))
    = 34 :: (k.flatMap (escapeChar true) ++ 34 :: 58 :: ([32] ++ (renderIndent pad v ++ s)))
      from quote_append lineStyle k _, member, if_pos rfl]
  simp only [scanString_joinSurrogates, skipWs_of_head (show isWs 58 = false by decide), if_true,
    skipWs_append hblank, skipWs_renderIndent, hv, Option.map_some]

theorem members_objIndentTail {kvs : List (Str × Json)} (h : ∀ p ∈ kvs, ReadsIndented p.2)
    (hpad : ∀ c ∈ pad, isWs c = true) :
    ∀ (n : Nat) (rest : Str), (objIndentTail pad kvs).length ≤ n →
      members n (objIndentTail pad kvs ++ rest)
        = some (kvs.map fun p => (joinSurrogates p.1, p.2.joined), rest) := by
  induction kvs with
  | nil =>
    intro n rest hn
    simp only [objIndentTail, List.length_append, List.length_singleton] at hn
    obtain ⟨m, rfl⟩ := Nat.exists_eq_add_of_le' (show 1 ≤ n by omega)
    rw [objIndentTail, List.append_assoc, members, skipWs_append hpad, List.cons_append,
      List.nil_append, skipWs_of_head (by decide)]
    simp
  | cons p kvs ih =>
    obtain ⟨k, v⟩ := p
    intro n rest hn
    simp only [objIndentTail, quote, List.length_cons, List.length_append] at hn
    obtain ⟨m, rfl⟩ := Nat.exists_eq_add_of_le' (show 2 ≤ n by omega)
    have hp := member_renderIndent (k := k) (h (k, v) List.mem_cons_self) (deeper_ws hpad) m
      (objIndentTail pad kvs ++ rest) (by simp only []; omega) (numEnd_objIndentTail hpad _ _)
    have hkvs := ih (fun q hq => h q (List.mem_cons_of_mem _ hq)) (m + 1) rest (by omega)
    have hq : ∀ s, skipWs (quote true k ++ s) = quote true k ++ s :=
      fun s => skipWs_of_head (by decide) _
    rw [objIndentTail, List.cons_append, members, skipWs_of_head (by decide)]
    simp only [if_neg (show ¬(44 : CodePoint) = 125 by decide), if_true, List.append_assoc,
      List.cons_append, skipWs_append (deeper_ws hpad), hq]
    simp only [List.cons_append] at hp
    simp only [hp, hkvs, Option.map_some, List.map_cons]

/-- **Every indented tree reads back.** -/
theorem readsIndented (j : Json) : ReadsIndented j := by
  induction j using Json.ind with
  | hnull => exact readsIndented_atom rfl
  | hbool b => exact readsIndented_atom rfl
  | hint i => exact readsIndented_atom rfl
  | hfloat f => exact readsIndented_atom rfl
  | hstr s =>
    intro pad _ n rest hn _
    obtain ⟨m, rfl⟩ := Nat.exists_eq_add_of_le' (show 1 ≤ n by
      simp only [renderIndent, quote, List.cons_append, List.length_cons] at hn; omega)
    rw [renderIndent, show quote true s ++ rest = 34 :: (s.flatMap (escapeChar true) ++ 34 :: rest)
      from
      quote_append lineStyle s rest, value, if_pos rfl, scanString_joinSurrogates, Option.map_some]
    rfl
  | harr xs ih =>
    intro pad hpad n rest hn _
    cases xs with
    | nil =>
      obtain ⟨m, rfl⟩ := Nat.exists_eq_add_of_le' (show 1 ≤ n by simp [renderIndent] at hn; omega)
      rw [renderIndent, List.cons_append, List.cons_append, value, if_neg (by decide), if_pos rfl,
        skipWs_of_head (by decide)]
      simp [Json.joined]
    | cons x xs =>
      simp only [renderIndent, List.length_cons, List.length_append] at hn
      obtain ⟨m, rfl⟩ := Nat.exists_eq_add_of_le' (show 1 ≤ n by omega)
      -- the bracket takes one unit of fuel, and each element is read one level deeper
      have hx := ih x List.mem_cons_self (deeper pad) (deeper_ws hpad) m
        (arrIndentTail pad xs ++ rest) (by omega) (numEnd_arrIndentTail hpad _ _)
      have hxs := elems_arrIndentTail (fun y hy => ih y (List.mem_cons_of_mem _ hy)) hpad m rest
        (by omega)
      obtain ⟨c, t, ht, hc⟩ := renderIndent_cons (deeper pad) x
      rw [renderIndent, List.cons_append, value, if_neg (by decide), if_pos rfl, List.append_assoc,
        skipWs_append (deeper_ws hpad), List.append_assoc, skipWs_renderIndent]
      rw [ht, List.cons_append] at hx ⊢
      simp only [hc.2.1, if_false, hx, hxs, Option.map_some, Json.joined, joinedElems_eq,
        List.map_cons]
  | hobj kvs ih =>
    intro pad hpad n rest hn _
    cases kvs with
    | nil =>
      obtain ⟨m, rfl⟩ := Nat.exists_eq_add_of_le' (show 1 ≤ n by simp [renderIndent] at hn; omega)
      rw [renderIndent, List.cons_append, List.cons_append, value, if_neg (by decide),
        if_neg (by decide), if_pos rfl, skipWs_of_head (by decide)]
      simp [Json.joined]
    | cons p kvs =>
      obtain ⟨k, v⟩ := p
      simp only [renderIndent, quote, List.length_cons, List.length_append] at hn
      obtain ⟨m, rfl⟩ := Nat.exists_eq_add_of_le' (show 2 ≤ n by omega)
      have hp := member_renderIndent (k := k) (ih (k, v) List.mem_cons_self) (deeper_ws hpad) m
        (objIndentTail pad kvs ++ rest) (by simp only []; omega) (numEnd_objIndentTail hpad _ _)
      have hkvs := members_objIndentTail (fun q hq => ih q (List.mem_cons_of_mem _ hq)) hpad
        (m + 1) rest (by omega)
      rw [renderIndent, List.cons_append, value, if_neg (by decide), if_neg (by decide), if_pos rfl,
        List.append_assoc, skipWs_append (deeper_ws hpad)]
      simp only [List.append_assoc, List.cons_append] at hp ⊢
      rw [quote, List.cons_append, List.cons_append, skipWs_of_head (by decide)]
      rw [quote, List.cons_append, List.cons_append] at hp
      simp only [if_neg (show ¬(34 : CodePoint) = 125 by decide), hp, hkvs, Option.map_some,
        Json.joined, joinedMembers_eq, List.map_cons]

/-- **What the reader makes of an indented tree.** -/
theorem parse_renderIndent (hpad : ∀ c ∈ pad, isWs c = true) (j : Json) :
    parse (renderIndent pad j) = some j.joined := by
  obtain ⟨c, t, ht, hc⟩ := renderIndent_cons pad j
  have hv := readsIndented j pad hpad (renderIndent pad j).length [] le_rfl (by rintro d ⟨⟩)
  have hbom : ¬ (renderIndent pad j).head? = some 0xFEFF := by
    rw [ht]
    simpa using hc.2.2
  have hskip : skipWs (renderIndent pad j) = renderIndent pad j := by
    rw [ht, skipWs_of_head hc.1]
  rw [List.append_nil] at hv
  rw [parse, if_neg hbom, hskip, hv]
  rfl

end Py
