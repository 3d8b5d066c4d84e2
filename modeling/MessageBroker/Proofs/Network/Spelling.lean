/-
  MessageBroker.Proofs.Network.Spelling — every address comes back from its text.

  An IPv4 address is its four numbers, and reading one stops where the next cannot go on
  (`readIpv4_render`). A text without a point is no IPv4 address (`readIpv4_eq_none`), so the
  groups of an IPv6 address are read as groups, although each of them is tried as an IPv4 address
  first (`readGroups_renderGroups`). What `::` leaves out is put back as zeros: that these are
  what was there is what is known of the longest run (`longestRun_within`). An address that maps
  an IPv4 address is written with one at its end, which is read as its last two groups.
  - `parse_render`: the text of an address spells it, and nothing else.
-/

import Mathlib.Algebra.Group.Nat.Defs
import MessageBroker.Network.Address
import MessageBroker.Proofs.Text.Numerals

namespace MessageBroker.Network

open Text

/-! ## Numbers -/

theorem readNumber_numeral {radix most : Nat} (hone : 1 < radix) (hradix : radix ≤ 16) (hmost : 0 < most)
    (zeroFirst : Bool) {n : Nat} (hn : n < radix ^ most) {rest : List Char} (hrest : Ends radix rest) :
    readNumber radix most zeroFirst (Nat.toDigits radix n ++ rest) = some (n, rest) := by
  have hdigits : ∀ c ∈ Nat.toDigits radix n, isDigit radix c = true := fun c => isDigit_of_mem_toDigits hone hradix
  have hlength : ¬most < (Nat.toDigits radix n).length :=
    Nat.not_lt.mpr ((Nat.length_toDigits_le_iff hone hmost).mpr hn)
  have hzero : ((Nat.toDigits radix n).head? == some '0' && decide (1 < (Nat.toDigits radix n).length)) = false := by
    by_cases hhead : (Nat.toDigits radix n).head? = some '0'
    · simp [length_of_head_toDigits hone hhead]
    · simp [hhead]
  simp only [readNumber, takeWhile_digits hdigits hrest, dropWhile_digits hdigits hrest]
  simp [hlength, hzero, Bool.and_assoc, ofDigits_toDigits hone hradix]

theorem readNumber_of_ends {radix most : Nat} {zeroFirst : Bool} {s : List Char} (h : Ends radix s) :
    readNumber radix most zeroFirst s = none := by
  have hnone : ([] ++ s).takeWhile (isDigit radix) = [] := takeWhile_digits nofun h
  rw [List.nil_append] at hnone
  simp [readNumber, hnone]

theorem readOctet_numeral (n : UInt8) {rest : List Char} (hrest : Ends 10 rest) :
    readOctet (Nat.toDigits 10 n.toNat ++ rest) = some (n, rest) := by
  have hn := n.toNat_lt
  rw [readOctet, readNumber_numeral (by decide) (by decide) (by decide) false (by omega) hrest]
  simp [hn]

/-! ## IPv4 -/

theorem Ipv4.mem_render {x : Ipv4} {c : Char} (h : c ∈ x.render) : c = '.' ∨ isDigit 10 c = true := by
  have hnumber {n : Nat} (h : c ∈ Nat.toDigits 10 n) : isDigit 10 c = true :=
    isDigit_of_mem_toDigits (by decide) (by decide) h
  simp only [Ipv4.render, List.mem_append, List.mem_cons] at h
  grind

theorem readIpv4_render (x : Ipv4) {rest : List Char} (hrest : Ends 10 rest) :
    readIpv4 (x.render ++ rest) = some (x, rest) := by
  have hpoint : ∀ s, Ends 10 ('.' :: s) := fun s => ends_cons (by decide)
  simp only [readIpv4, Ipv4.render, List.append_assoc, List.cons_append]
  simp [readOctet_numeral, hpoint, hrest, after]

theorem readIpv4_alone (x : Ipv4) : readIpv4 x.render = some (x, []) := by
  simpa using readIpv4_render x ends_nil

theorem readIpv4_of_ends {s : List Char} (h : Ends 10 s) : readIpv4 s = none := by
  simp [readIpv4, readOctet, readNumber_of_ends h]

theorem readIpv4_eq_none {s : List Char} (h : '.' ∉ s) : readIpv4 s = none := by
  have hrest {n : UInt8} {rest : List Char} (hread : readOctet s = some (n, rest)) : '.' ∉ rest := by
    have hdrop : rest = s.dropWhile (isDigit 10) := by
      simp only [readOctet, readNumber] at hread
      grind
    exact fun hin => h ((List.dropWhile_sublist _).subset (hdrop ▸ hin))
  have hafter {rest : List Char} (hno : '.' ∉ rest) : after '.' rest = none := by
    cases rest with
    | nil => rfl
    | cons c rest =>
      have hne : c ≠ '.' := fun hc => hno (hc ▸ List.mem_cons_self)
      simp [after, hne]
  cases hread : readOctet s with
  | none => simp [readIpv4, hread]
  | some found =>
    obtain ⟨n, rest⟩ := found
    simp [readIpv4, hread, hafter (hrest hread)]

theorem toGroups_ofGroups (g h : UInt16) : (Ipv4.ofGroups g h).toGroups = [g, h] := by
  have hpair (g : UInt16) : (g / 256).toUInt8.toUInt16 * 256 + g.toUInt8.toUInt16 = g := by
    have hg := g.toNat_lt
    refine UInt16.toNat_inj.mp ?_
    simp only [UInt16.toNat_add, UInt16.toNat_mul, UInt8.toNat_toUInt16, UInt16.toNat_toUInt8, UInt16.toNat_div]
    simp
    omega
  simp only [Ipv4.ofGroups, Ipv4.toGroups, hpair]

/-! ## Groups -/

namespace Ipv6

def colonGroups (groups : List UInt16) : List Char := groups.flatMap fun g => ':' :: Nat.toDigits 16 g.toNat

theorem renderGroups_cons (g : UInt16) (groups : List UInt16) :
    renderGroups (g :: groups) = Nat.toDigits 16 g.toNat ++ colonGroups groups := by
  induction groups generalizing g with
  | nil => simp [renderGroups, colonGroups]
  | cons h groups ih =>
    have hrest := ih h
    simp only [renderGroups, List.map_cons, List.intercalate_cons_cons] at hrest ⊢
    rw [hrest]
    simp [colonGroups]

theorem mem_colonGroups {groups : List UInt16} {c : Char} (h : c ∈ colonGroups groups) :
    c = ':' ∨ isDigit 16 c = true := by
  obtain ⟨g, -, hc⟩ := List.mem_flatMap.mp h
  rcases List.mem_cons.mp hc with rfl | hc
  · exact .inl rfl
  · exact .inr (isDigit_of_mem_toDigits (by decide) (by decide) hc)

theorem mem_renderGroups {groups : List UInt16} {c : Char} (h : c ∈ renderGroups groups) :
    c = ':' ∨ isDigit 16 c = true := by
  cases groups with
  | nil => cases h
  | cons g groups =>
    rw [renderGroups_cons] at h
    rcases List.mem_append.mp h with h | h
    · exact .inr (isDigit_of_mem_toDigits (by decide) (by decide) h)
    · exact mem_colonGroups h

end Ipv6

theorem point_notMem {s : List Char} (h : ∀ c ∈ s, c = ':' ∨ isDigit 16 c = true) : '.' ∉ s := by
  intro hpoint
  rcases h '.' hpoint with h | h <;> revert h <;> decide

theorem readGroups_of_ends {first : Bool} (limit : Nat) {s : List Char}
    (h : ∀ here, (if first then some s else after ':' s) = some here → Ends 16 here) :
    readGroups first limit s = ⟨[], false, s⟩ := by
  cases limit with
  | zero => rfl
  | succ limit =>
    simp only [readGroups]
    cases hhere : (if first then some s else after ':' s) with
    | none => simp
    | some here =>
      have hends := h here hhere
      simp [readIpv4_of_ends hends.decimal, readNumber_of_ends hends]

/-- One group is read and then those that follow, if there is no IPv4 address to be found. -/
theorem readGroups_step {first : Bool} (limit : Nat) {s rest : List Char} (g : UInt16)
    (hhere : (if first then some s else after ':' s) = some (Nat.toDigits 16 g.toNat ++ rest))
    (hno : readIpv4 (Nat.toDigits 16 g.toNat ++ rest) = none) (hrest : Ends 16 rest) :
    readGroups first (limit + 1) s =
      { readGroups false limit rest with groups := g :: (readGroups false limit rest).groups } := by
  have hg := g.toNat_lt
  have hread : readNumber 16 4 true (Nat.toDigits 16 g.toNat ++ rest) = some (g.toNat, rest) :=
    readNumber_numeral (by decide) (by decide) (by decide) true (by omega) hrest
  simp only [readGroups, hhere, Option.bind_eq_bind, Option.bind_some, hno, hread]
  simp

/-- What may follow groups: nothing, or the colons that stand for what is left out. -/
def Gap (rest : List Char) : Prop := rest = [] ∨ ∃ more, rest = ':' :: ':' :: more ∧ '.' ∉ more

theorem Gap.ends {rest : List Char} (h : Gap rest) : Ends 16 rest := by
  rcases h with rfl | ⟨more, rfl, -⟩
  · exact ends_nil
  · exact ends_cons (by decide)

theorem Gap.stops {rest : List Char} (h : Gap rest) (first : Bool) (limit : Nat) :
    readGroups first limit rest = ⟨[], false, rest⟩ := by
  refine readGroups_of_ends limit fun here hhere => ?_
  cases first with
  | true => exact Option.some.inj hhere ▸ h.ends
  | false =>
    rcases h with rfl | ⟨more, rfl, -⟩
    · cases hhere
    · obtain rfl : ':' :: more = here := Option.some.inj hhere
      exact ends_cons (by decide)

theorem Gap.no_point {rest : List Char} (h : Gap rest) : '.' ∉ rest := by
  rcases h with rfl | ⟨more, rfl, hmore⟩
  · exact List.not_mem_nil
  · simpa using hmore

theorem readGroups_group {first : Bool} (limit : Nat) {s rest : List Char} (g : UInt16) (groups : List UInt16)
    (hgap : Gap rest)
    (hhere : (if first then some s else after ':' s) =
      some (Nat.toDigits 16 g.toNat ++ (Ipv6.colonGroups groups ++ rest))) :
    readGroups first (limit + 1) s =
      { readGroups false limit (Ipv6.colonGroups groups ++ rest) with
        groups := g :: (readGroups false limit (Ipv6.colonGroups groups ++ rest)).groups } := by
  have hends : Ends 16 (Ipv6.colonGroups groups ++ rest) := by
    cases groups with
    | nil => exact hgap.ends
    | cons h groups => exact ends_cons (by decide)
  have hdigits : '.' ∉ Nat.toDigits 16 g.toNat :=
    point_notMem fun c hc => .inr (isDigit_of_mem_toDigits (by decide) (by decide) hc)
  have hno : '.' ∉ Nat.toDigits 16 g.toNat ++ (Ipv6.colonGroups groups ++ rest) := by
    simp [hdigits, point_notMem fun c => Ipv6.mem_colonGroups, hgap.no_point]
  exact readGroups_step limit g hhere (readIpv4_eq_none hno) hends

theorem readGroups_colonGroups (groups : List UInt16) (limit : Nat) (hlimit : groups.length ≤ limit)
    {rest : List Char} (hgap : Gap rest) :
    readGroups false limit (Ipv6.colonGroups groups ++ rest) = ⟨groups, false, rest⟩ := by
  induction groups generalizing limit with
  | nil => exact hgap.stops false limit
  | cons g groups ih =>
    obtain ⟨limit, rfl⟩ : ∃ l, limit = l + 1 := ⟨limit - 1, by simp at hlimit; omega⟩
    have hsplit : Ipv6.colonGroups (g :: groups) ++ rest =
        ':' :: (Nat.toDigits 16 g.toNat ++ (Ipv6.colonGroups groups ++ rest)) := by
      simp [Ipv6.colonGroups]
    rw [hsplit, readGroups_group limit g groups hgap rfl, ih limit (by simpa using hlimit)]

theorem readGroups_renderGroups (groups : List UInt16) (limit : Nat) (hlimit : groups.length ≤ limit)
    {rest : List Char} (hgap : Gap rest) :
    readGroups true limit (Ipv6.renderGroups groups ++ rest) = ⟨groups, false, rest⟩ := by
  cases groups with
  | nil => exact hgap.stops true limit
  | cons g groups =>
    obtain ⟨limit, rfl⟩ : ∃ l, limit = l + 1 := ⟨limit - 1, by simp at hlimit; omega⟩
    rw [Ipv6.renderGroups_cons, List.append_assoc, readGroups_group limit g groups hgap rfl,
      readGroups_colonGroups groups limit (by simpa using hlimit) hgap]

/-! ## The longest run -/

namespace Ipv6

/-- The run is one of zeros in `groups`, at its place. -/
def Run.Within (r : Run) (groups : List UInt16) : Prop :=
  ∃ before behind, groups = before ++ List.replicate r.length 0 ++ behind ∧ before.length = r.start

def Run.AtEnd (r : Run) (groups : List UInt16) : Prop :=
  0 < r.length → ∃ before, groups = before ++ List.replicate r.length 0 ∧ before.length = r.start

theorem Run.Within.snoc {r : Run} {groups : List UInt16} (h : r.Within groups) (g : UInt16) :
    r.Within (groups ++ [g]) := by
  obtain ⟨before, behind, rfl, hstart⟩ := h
  exact ⟨before, behind ++ [g], by simp, hstart⟩

/-- A zero goes on with the run that ends here, or begins one. -/
theorem Run.AtEnd.snoc {r : Run} {groups : List UInt16} (h : r.AtEnd groups) :
    (if r.length = 0 then ⟨groups.length, 1⟩ else { r with length := r.length + 1 } : Run).AtEnd (groups ++ [0]) := by
  split
  · exact fun _ => ⟨groups, rfl, rfl⟩
  · rename_i hlength
    obtain ⟨before, rfl, hstart⟩ := h (Nat.pos_of_ne_zero hlength)
    exact fun _ => ⟨before, by simp [List.replicate_succ'], hstart⟩

theorem longestRunFrom_within {found current : Run} {past : List UInt16} (groups : List UInt16)
    (hfound : found.Within past) (hcurrent : current.AtEnd past) :
    (longestRunFrom past.length found current groups).Within (past ++ groups) := by
  -- the run found and the run at the end are carried along the groups
  induction groups generalizing past found current with
  | nil => simpa [longestRunFrom] using hfound
  | cons g groups ih =>
    have hlength : past.length + 1 = (past ++ [g]).length := by simp
    have happend : past ++ g :: groups = past ++ [g] ++ groups := by simp
    by_cases hzero : g = 0
    · subst hzero
      have hnext := hcurrent.snoc
      simp only [longestRunFrom, if_true, hlength, happend]
      generalize (if current.length = 0 then _ else _ : Run) = next at hnext ⊢
      refine ih ?_ hnext
      split
      · rename_i hlonger
        obtain ⟨before, hpast, hstart⟩ := hnext (by omega)
        exact ⟨before, [], by simpa using hpast, hstart⟩
      · exact hfound.snoc 0
    · simp only [longestRunFrom, if_neg hzero, hlength, happend]
      exact ih (hfound.snoc g) fun h => absurd h (Nat.lt_irrefl 0)

theorem longestRun_within (groups : List UInt16) : (longestRun groups).Within groups := by
  have hfound : ({} : Run).Within [] := ⟨[], [], rfl, rfl⟩
  exact longestRunFrom_within groups hfound fun h => absurd h (Nat.lt_irrefl 0)

end Ipv6

/-! ## IPv6 -/

/-- Eight groups are an address. -/
theorem readIpv6_of_full {s rest : List Char} {x : Ipv6} {endsInIpv4 : Bool}
    (h : readGroups true 8 s = ⟨x.groups, endsInIpv4, rest⟩) : readIpv6 s = some (x, rest) := by
  simp [readIpv6, h, x.eight]

/-- Fewer than eight groups are an address if two colons stand for the zeros that are left out. -/
theorem readIpv6_of_gap {s more rest : List Char} {before behind : List UInt16} {endsInIpv4 : Bool} {x : Ipv6}
    (hhead : readGroups true 8 s = ⟨before, false, ':' :: ':' :: more⟩)
    (htail : readGroups true (8 - (before.length + 1)) more = ⟨behind, endsInIpv4, rest⟩)
    (hfew : before.length ≠ 8)
    (hx : x.groups = before ++ List.replicate (8 - before.length - behind.length) 0 ++ behind) :
    readIpv6 s = some (x, rest) := by
  obtain ⟨groups, eight⟩ := x
  subst hx
  simp only [readIpv6, hhead, htail]
  simp [hfew]

theorem groups_of_mapped? {x : Ipv6} {v4 : Ipv4} (h : x.mapped? = some v4) :
    x.groups = List.replicate 5 0 ++ 0xffff :: v4.toGroups := by
  unfold Ipv6.mapped? at h
  split at h
  · rename_i g h' hgroups
    obtain rfl : Ipv4.ofGroups g h' = v4 := Option.some.inj h
    rw [toGroups_ofGroups, hgroups]
    rfl
  · cases h

theorem readGroups_mapped (v4 : Ipv4) :
    readGroups true 7 ("ffff:".toList ++ v4.render) = ⟨0xffff :: v4.toGroups, true, []⟩ := by
  have htext : "ffff:".toList ++ v4.render = Nat.toDigits 16 (0xffff : UInt16).toNat ++ ':' :: v4.render := rfl
  have hno : readIpv4 ("ffff:".toList ++ v4.render) = none := readIpv4_of_ends (ends_cons (by decide))
  have hlast : readGroups false 6 (':' :: v4.render) = ⟨v4.toGroups, true, []⟩ := by
    simp [readGroups, after, readIpv4_alone]
  rw [readGroups_step 6 0xffff (by rw [htext]; rfl) (htext ▸ hno) (ends_cons (by decide)), hlast]

/-- The text of an IPv6 address is read as the address. -/
theorem readIpv6_render (x : Ipv6) : readIpv6 x.render = some (x, []) := by
  unfold Ipv6.render
  split
  · rename_i v4 hmapped
    have hhead : readGroups true 8 ("::ffff:".toList ++ v4.render) = ⟨[], false, "::ffff:".toList ++ v4.render⟩ :=
      readGroups_of_ends 8 fun here hhere => Option.some.inj hhere ▸ ends_cons (by decide)
    exact readIpv6_of_gap hhead (readGroups_mapped v4) (by decide) (groups_of_mapped? hmapped)
  · dsimp only
    split
    · rename_i hlong
      obtain ⟨before, behind, hgroups, hstart⟩ := Ipv6.longestRun_within x.groups
      have height := x.eight
      generalize Ipv6.longestRun x.groups = run at *
      have htake : x.groups.take run.start = before := by simp [hgroups, ← hstart]
      have hdrop : x.groups.drop (run.start + run.length) = behind := by
        rw [hgroups, List.drop_left']
        simp [hstart]
      have htotal : before.length + (run.length + behind.length) = 8 := by
        simpa [hgroups] using height
      have hpoint : '.' ∉ Ipv6.renderGroups behind := point_notMem fun c => Ipv6.mem_renderGroups
      have hhead := readGroups_renderGroups before 8 (by omega)
        (.inr ⟨Ipv6.renderGroups behind, rfl, hpoint⟩)
      have htail := readGroups_renderGroups behind (8 - (before.length + 1)) (by omega) (.inl rfl)
      have hzeros : 8 - before.length - behind.length = run.length := by omega
      rw [htake, hdrop]
      exact readIpv6_of_gap hhead (by simpa using htail) (by omega) (by rw [hzeros, hgroups])
    · have hread := readGroups_renderGroups x.groups 8 (Nat.le_of_eq x.eight) (.inl rfl)
      exact readIpv6_of_full (by simpa using hread)

/-- The text of an IPv6 address is not that of an IPv4 address. -/
theorem readIpv4_ipv6 (x : Ipv6) : readIpv4 x.render = none := by
  unfold Ipv6.render
  split
  · exact readIpv4_of_ends (ends_cons (by decide))
  · refine readIpv4_eq_none ?_
    dsimp only
    split
    · simp [point_notMem fun c => Ipv6.mem_renderGroups]
    · exact point_notMem fun c => Ipv6.mem_renderGroups

/-- The text of an address spells it. -/
theorem Address.parse_render (x : Address) : Address.parse x.render = some x := by
  cases x with
  | v4 x => simp [Address.parse, Address.render, readIpv4_alone]
  | v6 x => simp [Address.parse, Address.render, readIpv4_ipv6, readIpv6_render]

/-- No character of an address is a control character. -/
theorem Address.printable {x : Address} {c : Char} (h : c ∈ x.render) : 0x20 ≤ c.toNat := by
  have hv4 {x : Ipv4} (h : c ∈ x.render) : 0x20 ≤ c.toNat := by
    rcases Ipv4.mem_render h with rfl | h
    · decide
    · exact printable_of_isDigit h
  have hgroups {groups : List UInt16} (h : c ∈ Ipv6.renderGroups groups) : 0x20 ≤ c.toNat := by
    rcases Ipv6.mem_renderGroups h with rfl | h
    · decide
    · exact printable_of_isDigit h
  cases x with
  | v4 x => exact hv4 h
  | v6 x =>
    simp only [Address.render, Ipv6.render] at h
    split at h
    · rcases List.mem_append.mp h with h | h
      · have hprefix : ∀ c ∈ "::ffff:".toList, 0x20 ≤ c.toNat := by simp
        exact hprefix c h
      · exact hv4 h
    · split at h
      · simp only [List.mem_append, List.mem_cons] at h
        rcases h with h | rfl | rfl | h
        · exact hgroups h
        · decide
        · decide
        · exact hgroups h
      · exact hgroups h

theorem Address.ofText?_text (x : Address) : Address.ofText? x.text = some x := by
  simp [Address.ofText?, Address.text, Address.parse_render]

end MessageBroker.Network
