/-
  MessageBroker.Proofs.Settings.Document — what documents set.

  A value that gives a setting (`Gives`) sets it, whatever the other settings are, and leaves them
  (`set?_gives`). So members that give settings, each once, set those one after the other, and
  members with other keys among them set nothing (`Sets`, `setMembers?_sets`); the items of an array
  set the settings in their order (`setItems?_gives`). Members that name a setting twice set nothing
  at all, wherever the two stand (`setMembers?_twice`).
  - `load_text`: the bytes of a text are loaded as what the text sets.
-/

import MessageBroker.Proofs.Json.Printing
import MessageBroker.Proofs.Network.Spelling
import MessageBroker.Settings.Document

namespace MessageBroker.Settings

open Network Json

/-! ## Fields -/

def copy (t s : Settings) : Field → Settings
  | .bindAddress => { s with bindAddress := t.bindAddress }
  | .port => { s with port := t.port }
  | .workers => { s with workers := t.workers }
  | .backlog => { s with backlog := t.backlog }
  | .maxMessageSize => { s with maxMessageSize := t.maxMessageSize }
  | .readBudget => { s with readBudget := t.readBudget }
  | .noDelay => { s with noDelay := t.noDelay }
  | .prefetchLimit => { s with prefetchLimit := t.prefetchLimit }
  | .deliveryBatch => { s with deliveryBatch := t.deliveryBatch }

theorem copy_all (t s : Settings) : Field.all.foldl t.copy s = t := by
  simp [Field.all, copy]

theorem Field.nodup_all : Field.all.Nodup := by decide

theorem Field.ofKey?_key (f : Field) : ofKey? f.key.toList = some f := by
  cases f <;> decide

theorem Field.ofKey?_unknown {name : List Char} (h : ∀ f : Field, f.key.toList ≠ name) : ofKey? name = none := by
  rw [ofKey?, List.find?_eq_none]
  intro f _ hkey
  exact h f (beq_iff_eq.mp hkey)

/-! ## One setting -/

/-- The value gives the setting that is in `t`: an address by any text that is read as it, with any
    escapes, and each other setting by the value it is written as. -/
inductive Gives (t : Settings) : Field → Value → Prop
  | address {atoms : List Atom} {name : List Char} (hname : decode? atoms = some name)
    (h : Address.parse name = some t.bindAddress) : Gives t .bindAddress (.text atoms)
  | value {f : Field} (h : f ≠ .bindAddress) : Gives t f (t.get f)

/-- Every setting is written as a value that gives it. -/
theorem gives_get (t : Settings) (f : Field) : Gives t f (t.get f) := by
  by_cases h : f = .bindAddress
  · subst h
    refine .address (decode?_chars _) ?_
    rw [Address.text, String.toList_ofList]
    exact Address.parse_render t.bindAddress
  · exact .value h

theorem word?_ofNat {n size : Nat} (h : n < size) : word? size (ofNat n) = some n := by
  simp [word?, ofNat, Number.nat?_ofNat, h]

theorem set?_prefetchLimit (s : Settings) (n : UInt64) :
    s.set? .prefetchLimit (ofNat n.toNat) = some { s with prefetchLimit := some n } := by
  have hset : s.set? .prefetchLimit (ofNat n.toNat) =
      (word? UInt64.size (ofNat n.toNat)).map fun n => { s with prefetchLimit := some (UInt64.ofNat n) } := rfl
  rw [hset, word?_ofNat n.toNat_lt]
  simp

theorem set?_gives {t : Settings} {f : Field} {v : Value} (h : Gives t f v) (s : Settings) :
    s.set? f v = some (t.copy s f) := by
  cases h with
  | address hname h => simp [set?, address?, hname, h, copy]
  | value hf =>
    cases f with
    | bindAddress => exact absurd rfl hf
    | port => simp [set?, get, word?_ofNat t.port.toNat_lt, copy]
    | workers => simp [set?, get, word?_ofNat t.workers.toNat_lt, copy]
    | backlog => simp [set?, get, word?_ofNat t.backlog.toNat_lt, copy]
    | maxMessageSize => simp [set?, get, word?_ofNat t.maxMessageSize.toNat_lt, copy]
    | readBudget => simp [set?, get, word?_ofNat t.readBudget.toNat_lt, copy]
    | noDelay => rfl
    | prefetchLimit =>
      rw [copy]
      cases hlimit : t.prefetchLimit with
      | none => simp [get, hlimit, set?]
      | some n => simp [get, hlimit, set?_prefetchLimit]
    | deliveryBatch => simp [set?, get, word?_ofNat t.deliveryBatch.toNat_lt, copy]

/-! ## Members -/

/-- The members give the settings `fields` as they are in `t`, in this order, each key escaped in any
    way. Among them may stand members whose keys name no setting. -/
inductive Sets (t : Settings) : List Field → List Member → Prop
  | nil : Sets t [] []
  | setting {f : Field} {key : List Atom} {v : Value} {fields : List Field} {members : List Member}
    (hkey : decode? key = some f.key.toList) (hv : Gives t f v) (rest : Sets t fields members) :
    Sets t (f :: fields) ((key, v) :: members)
  | unknown {name : List Char} {key : List Atom} {v : Value} {fields : List Field} {members : List Member}
    (hkey : decode? key = some name) (hname : ∀ f : Field, f.key.toList ≠ name) (rest : Sets t fields members) :
    Sets t fields ((key, v) :: members)

theorem setMembers?_setting {s : Settings} {done : List Field} {key : List Atom} {f : Field}
    (hkey : decode? key = some f.key.toList) (v : Value) (members : List Member) :
    s.setMembers? done ((key, v) :: members) =
      if f ∈ done then none else (s.set? f v).bind fun s => s.setMembers? (f :: done) members := by
  simp only [setMembers?, hkey, Option.bind_eq_bind, Option.bind_some, Field.ofKey?_key]

theorem setMembers?_unknown {s : Settings} {done : List Field} {key : List Atom} {name : List Char}
    (hkey : decode? key = some name) (hname : ∀ f : Field, f.key.toList ≠ name) (v : Value) (members : List Member) :
    s.setMembers? done ((key, v) :: members) = s.setMembers? done members := by
  simp only [setMembers?, hkey, Option.bind_eq_bind, Option.bind_some, Field.ofKey?_unknown hname]

/-- Members that give settings, each once, set them one after the other. -/
theorem setMembers?_sets {t : Settings} {fields done : List Field} {members : List Member} (h : Sets t fields members)
    (hnodup : fields.Nodup) (hdone : ∀ f ∈ fields, f ∉ done) (s : Settings) :
    s.setMembers? done members = some (fields.foldl t.copy s) := by
  induction h generalizing s done with
  | nil => rfl
  | @setting f key v fields members hkey hv _ ih =>
    obtain ⟨hf, hnodup⟩ := List.nodup_cons.mp hnodup
    have hrest : ∀ g ∈ fields, g ∉ f :: done := by
      intro g hg hin
      rcases List.mem_cons.mp hin with rfl | hin
      · exact hf hg
      · exact hdone g (List.mem_cons_of_mem f hg) hin
    rw [setMembers?_setting hkey, if_neg (hdone f List.mem_cons_self), set?_gives hv]
    exact ih hnodup hrest (t.copy s f)
  | unknown hkey hname _ ih =>
    rw [setMembers?_unknown hkey hname]
    exact ih hnodup hdone s

/-- What is refused whatever has been set before is refused behind any members. -/
theorem setMembers?_append_none {later : List Member} (before : List Member) (s : Settings) (done : List Field)
    (h : ∀ (s : Settings) (past : List Field), (∀ f ∈ done, f ∈ past) → s.setMembers? past later = none) :
    s.setMembers? done (before ++ later) = none := by
  induction before generalizing s done with
  | nil => exact h s done fun _ hf => hf
  | cons m before ih =>
    obtain ⟨key, v⟩ := m
    rw [List.cons_append, setMembers?, Option.bind_eq_bind]
    cases decode? key with
    | none => rfl
    | some name =>
      rw [Option.bind_some]
      cases Field.ofKey? name with
      | none => exact ih s done h
      | some f =>
        show (if f ∈ done then none else (s.set? f v).bind fun s => s.setMembers? (f :: done) (before ++ later)) = none
        split
        · rfl
        · cases s.set? f v with
          | none => rfl
          | some s =>
            refine ih s (f :: done) fun s past hpast => ?_
            exact h s past fun g hg => hpast g (List.mem_cons_of_mem f hg)

/-- Members that name a setting twice are refused, whatever stands before, between and behind the two. -/
theorem setMembers?_twice {f : Field} {key key' : List Atom} (hkey : decode? key = some f.key.toList)
    (hkey' : decode? key' = some f.key.toList) (s : Settings) (v v' : Value) (before between behind : List Member) :
    s.setMembers? [] (before ++ (key, v) :: (between ++ (key', v') :: behind)) = none := by
  refine setMembers?_append_none before s [] fun s past _ => ?_
  rw [setMembers?_setting hkey]
  split
  · rfl
  · cases s.set? f v with
    | none => rfl
    | some s =>
      refine setMembers?_append_none between s (f :: past) fun s later hlater => ?_
      rw [setMembers?_setting hkey', if_pos (hlater f List.mem_cons_self)]

/-! ## Items -/

/-- Items that give settings in their order set those. -/
theorem setItems?_gives {t : Settings} {fields : List Field} {items : List Value}
    (h : List.Forall₂ (Gives t) fields items) (later : List Field) (s : Settings) :
    s.setItems? (fields ++ later) items = some (fields.foldl t.copy s) := by
  induction h generalizing s with
  | nil => cases later <;> rfl
  | @cons f v fields items hv _ ih =>
    rw [List.cons_append, setItems?, set?_gives hv]
    exact ih (t.copy s f)

/-! ## Bytes -/

theorem fromUTF8?_toUTF8 (s : String) : String.fromUTF8? ⟨s.toUTF8.data.toList.toArray⟩ = some s := by
  simp only [String.toUTF8_eq_toByteArray, Array.toArray_toList, String.fromUTF8?]
  exact dif_pos s.isValidUTF8

/-- A text is loaded from its bytes, and refused if it is no document of settings. -/
theorem load_text (workers : UInt64) (text : String) :
    load workers (.ok text.toUTF8.data.toList) =
      match parse? workers text with
      | none => .error (.parse "not a document of settings")
      | some s => .ok s := by
  have hread := fromUTF8?_toUTF8 text
  have hbytes : (Except.ok text.toUTF8.data.toList : Except IoError Wire.Bytes).mapError SettingsError.ofIo =
      .ok text.toUTF8.data.toList := rfl
  simp only [load, hbytes, bind, Except.bind, hread]
  cases parse? workers text <;> rfl

/-- What a text sets is loaded from its bytes. -/
theorem load_toUTF8 {workers : UInt64} {text : String} {s : Settings} (h : parse? workers text = some s) :
    load workers (.ok text.toUTF8.data.toList) = .ok s := by
  rw [load_text, h]

end MessageBroker.Settings
