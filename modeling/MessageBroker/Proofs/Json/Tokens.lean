/-
  MessageBroker.Proofs.Json.Tokens — every value comes back from its tokens, and from no others.

  The tokens of a value are those of what it holds, with the commas, colons and brackets that hold
  it together (`toTokens`). A reader that waits for a value has it when it has gone over them, and
  the containers that are open are as they were (`run_value`); for that the items and members of a
  container are read one by one, each put behind those before it (`run_items`, `run_members`).
  What a reader holds tells which tokens it has gone over (`past`), so no others give the value.
  - `ofTokens?_toTokens`: the tokens of a value spell it.
  - `ofTokens?_eq_some_iff`: and nothing else does.
-/

import MessageBroker.Json.Value

namespace MessageBroker.Json.Value

mutual

/-- The tokens that spell a value. -/
def toTokens : Value → List Token
  | null => [.null]
  | bool b => [.bool b]
  | number n => [.number n]
  | text atoms => [.text atoms]
  | array [] => [.openArray, .closeArray]
  | array (v :: rest) => .openArray :: (v.toTokens ++ (itemTokens rest ++ [.closeArray]))
  | object [] => [.openObject, .closeObject]
  | object ((k, v) :: rest) =>
    .openObject :: .text k :: .colon :: (v.toTokens ++ (memberTokens rest ++ [.closeObject]))

def itemTokens : List Value → List Token
  | [] => []
  | v :: rest => .comma :: (v.toTokens ++ itemTokens rest)

def memberTokens : List Member → List Token
  | [] => []
  | (k, v) :: rest => .comma :: .text k :: .colon :: (v.toTokens ++ memberTokens rest)

end

theorem toTokens_object (members : List Member) :
    (object members).toTokens = .openObject :: ((memberTokens members).tail ++ [.closeObject]) := by
  rcases members with - | ⟨⟨k, v⟩, members⟩
  · rfl
  · simp [toTokens, memberTokens]

def Reader.run (r : Reader) (ts : List Token) : Option Reader := ts.foldlM Reader.step r

namespace Reader

variable {r : Reader} {stack : List Open}

theorem run_cons {t : Token} {ts : List Token} : r.run (t :: ts) = (r.step t).bind (·.run ts) := rfl

theorem run_append {first ts : List Token} : r.run (first ++ ts) = (r.run first).bind (·.run ts) :=
  List.foldlM_append

/-- No value starts with the end of an array. -/
theorem begins (v : Value) : ∃ t ts, v.toTokens = t :: ts ∧ t ≠ .closeArray := by
  cases v with
  | null | bool | number | text => exact ⟨_, _, rfl, nofun⟩
  | array items => cases items <;> exact ⟨_, _, rfl, nofun⟩
  | object members =>
    rcases members with - | ⟨⟨k, v⟩, members⟩ <;> exact ⟨_, _, rfl, nofun⟩

theorem run_firstItem (v : Value) : (firstItem stack).run v.toTokens = (value (.array [] :: stack)).run v.toTokens := by
  obtain ⟨t, ts, htokens, hclose⟩ := begins v
  have hstep : (firstItem stack).step t = (value (.array [] :: stack)).step t := by
    cases t <;> first | rfl | exact absurd rfl hclose
  rw [htokens, run_cons, run_cons, hstep]

mutual

/-- A value is read from its tokens. -/
theorem run_value (v : Value) (stack : List Open) : (value stack).run v.toTokens = some (.more v stack) := by
  match v with
  | .null | .bool _ | .number _ | .text _ | .array [] | .object [] => rfl
  | .array (v :: rest) =>
    have hopen : (value stack).run (array (v :: rest)).toTokens =
        (firstItem stack).run (v.toTokens ++ (itemTokens rest ++ [.closeArray])) := rfl
    rw [hopen, run_append, run_firstItem, run_value v, Option.bind_some, run_items rest]
    rfl
  | .object ((k, v) :: rest) =>
    have hopen : (value stack).run (object ((k, v) :: rest)).toTokens =
        (value (.object [] k :: stack)).run (v.toTokens ++ (memberTokens rest ++ [.closeObject])) := rfl
    rw [hopen, run_append, run_value v, Option.bind_some, run_members rest]
    rfl

theorem run_items (items : List Value) (v : Value) (before : List Value) (stack : List Open) :
    (more v (.array before :: stack)).run (itemTokens items ++ [.closeArray]) =
      some (.more (.array (before.reverse ++ v :: items)) stack) := by
  match items with
  | [] =>
    have hend : (more v (.array before :: stack)).run (itemTokens [] ++ [.closeArray]) =
        some (.more (.array (v :: before).reverse) stack) := rfl
    rw [hend, List.reverse_cons]
  | w :: rest =>
    have hcomma : (more v (.array before :: stack)).run (itemTokens (w :: rest) ++ [.closeArray]) =
        (value (.array (v :: before) :: stack)).run (w.toTokens ++ itemTokens rest ++ [.closeArray]) := rfl
    rw [hcomma, List.append_assoc, run_append, run_value w, Option.bind_some, run_items rest]
    simp

theorem run_members (members : List Member) (k : List Atom) (v : Value) (before : List Member) (stack : List Open) :
    (more v (.object before k :: stack)).run (memberTokens members ++ [.closeObject]) =
      some (.more (.object (before.reverse ++ (k, v) :: members)) stack) := by
  match members with
  | [] =>
    have hend : (more v (.object before k :: stack)).run (memberTokens [] ++ [.closeObject]) =
        some (.more (.object ((k, v) :: before).reverse) stack) := rfl
    rw [hend, List.reverse_cons]
  | (l, w) :: rest =>
    have hcomma : (more v (.object before k :: stack)).run (memberTokens ((l, w) :: rest) ++ [.closeObject]) =
        (value (.object ((k, v) :: before) l :: stack)).run (w.toTokens ++ memberTokens rest ++ [.closeObject]) := rfl
    rw [hcomma, List.append_assoc, run_append, run_value w, Option.bind_some, run_members rest]
    simp

end

end Reader

/-- The tokens of a value spell it. -/
theorem ofTokens?_toTokens (v : Value) : ofTokens? v.toTokens = some v := by
  have hrun : v.toTokens.foldlM Reader.step (.value []) = some (.more v []) := Reader.run_value v []
  simp only [ofTokens?, hrun]

/-! ## What has been read -/

def itemsBefore (items : List Value) : List Token := items.flatMap fun v => v.toTokens ++ [.comma]

def membersBefore (members : List Member) : List Token :=
  members.flatMap fun m => .text m.1 :: .colon :: (m.2.toTokens ++ [.comma])

theorem itemTokens_snoc (items : List Value) (v : Value) :
    itemTokens (items ++ [v]) = .comma :: (itemsBefore items ++ v.toTokens) := by
  induction items with
  | nil => simp [itemTokens, itemsBefore]
  | cons w items ih => simp [itemTokens, itemsBefore, ih]

theorem memberTokens_snoc (members : List Member) (k : List Atom) (v : Value) :
    memberTokens (members ++ [(k, v)]) = .comma :: (membersBefore members ++ .text k :: .colon :: v.toTokens) := by
  induction members with
  | nil => simp [memberTokens, membersBefore]
  | cons m members ih => simp [memberTokens, membersBefore, ih]

theorem toTokens_array_snoc (items : List Value) (v : Value) :
    (array (items ++ [v])).toTokens = .openArray :: (itemsBefore items ++ v.toTokens ++ [.closeArray]) := by
  cases items with
  | nil => simp [toTokens, itemTokens, itemsBefore]
  | cons w items => simp [toTokens, itemTokens_snoc, itemsBefore]

theorem toTokens_object_snoc (members : List Member) (k : List Atom) (v : Value) :
    (object (members ++ [(k, v)])).toTokens =
      .openObject :: (membersBefore members ++ .text k :: .colon :: v.toTokens ++ [.closeObject]) := by
  rw [toTokens_object, memberTokens_snoc]
  simp

def Open.tokens : Open → List Token
  | .array items => .openArray :: itemsBefore items.reverse
  | .object members key => .openObject :: (membersBefore members.reverse ++ [.text key, .colon])

def openTokens (stack : List Open) : List Token := stack.reverse.flatMap Open.tokens

theorem openTokens_cons (o : Open) (stack : List Open) : openTokens (o :: stack) = openTokens stack ++ o.tokens := by
  simp [openTokens]

namespace Reader

/-- The tokens that a reader has gone over. -/
def past : Reader → List Token
  | value stack => openTokens stack
  | firstItem stack => openTokens stack ++ [.openArray]
  | firstKey stack => openTokens stack ++ [.openObject]
  | key members stack => openTokens stack ++ .openObject :: membersBefore members.reverse
  | colon members k stack => openTokens stack ++ .openObject :: (membersBefore members.reverse ++ [.text k])
  | more v stack => openTokens stack ++ v.toTokens

theorem past_begin {stack : List Open} {t : Token} {r : Reader} (h : begin? stack t = some r) :
    r.past = openTokens stack ++ [t] := by
  cases t <;> cases h <;> rfl

/-- No token is lost: a value that is finished stands for all of its tokens. -/
theorem past_step {r r' : Reader} {t : Token} (h : r.step t = some r') : r'.past = r.past ++ [t] := by
  unfold step at h
  split at h
  case h_1 => exact past_begin h
  case h_3 =>
    rw [past_begin h, openTokens_cons]
    rfl
  -- the last item and the last member stand first in what is open
  case h_9 v items stack =>
    cases h
    rw [past, past, List.reverse_cons, toTokens_array_snoc, openTokens_cons, Open.tokens]
    simp
  case h_11 v members k stack =>
    cases h
    rw [past, past, List.reverse_cons, toTokens_object_snoc, openTokens_cons, Open.tokens]
    simp
  case h_12 => cases h
  all_goals
    cases h
    simp [past, toTokens, openTokens_cons, Open.tokens, itemsBefore, membersBefore]

theorem past_run {r r' : Reader} {ts : List Token} (h : r.run ts = some r') : r'.past = r.past ++ ts := by
  induction ts generalizing r with
  | nil =>
    obtain rfl : r = r' := Option.some.inj h
    rw [List.append_nil]
  | cons t ts ih =>
    rw [run_cons, Option.bind_eq_some_iff] at h
    obtain ⟨next, hstep, hrest⟩ := h
    rw [ih hrest, past_step hstep, List.append_assoc]
    rfl

end Reader

/-- A value is spelled by its tokens alone. -/
theorem ofTokens?_eq_some_iff {ts : List Token} {v : Value} : ofTokens? ts = some v ↔ ts = v.toTokens := by
  constructor
  · intro h
    unfold ofTokens? at h
    split at h
    · rename_i w hrun
      obtain rfl : w = v := Option.some.inj h
      exact (Reader.past_run hrun).symm
    · cases h
  · rintro rfl
    exact ofTokens?_toTokens v

end MessageBroker.Json.Value
