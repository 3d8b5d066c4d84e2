/-
  MessageBroker.Proofs.Settings.Loading — a text sets what it gives, however it is spelled.

  Settings may be given as an object or as an array. Nothing about an object matters but the values
  of the settings it names: not the order of its members, nor blanks, nor how its keys are escaped,
  nor members with other keys. An array gives the first settings in the order of `Field.all`.
  - `given_settings_loaded`: what is given overrides the default, what is not given keeps it, and
    what is given twice is refused.
-/

import Mathlib.Data.List.Perm.Basic
import MessageBroker.Proofs.Settings.Document

namespace MessageBroker.Settings

open Network Json

def overridden (t s : Settings) (fields : List Field) : Settings where
  bindAddress := if .bindAddress ∈ fields then t.bindAddress else s.bindAddress
  port := if .port ∈ fields then t.port else s.port
  workers := if .workers ∈ fields then t.workers else s.workers
  backlog := if .backlog ∈ fields then t.backlog else s.backlog
  maxMessageSize := if .maxMessageSize ∈ fields then t.maxMessageSize else s.maxMessageSize
  readBudget := if .readBudget ∈ fields then t.readBudget else s.readBudget
  noDelay := if .noDelay ∈ fields then t.noDelay else s.noDelay
  prefetchLimit := if .prefetchLimit ∈ fields then t.prefetchLimit else s.prefetchLimit
  deliveryBatch := if .deliveryBatch ∈ fields then t.deliveryBatch else s.deliveryBatch

theorem overridden_cons (t s : Settings) (f : Field) (fields : List Field) :
    overridden t s (f :: fields) = overridden t (t.copy s f) fields := by
  cases f <;> simp [overridden, copy]

theorem foldl_copy (t s : Settings) (fields : List Field) : fields.foldl t.copy s = overridden t s fields := by
  induction fields generalizing s with
  | nil => simp [overridden]
  | cons f fields ih => rw [List.foldl_cons, ih, overridden_cons]

theorem overridden_perm (t s : Settings) {fields fields' : List Field} (h : fields.Perm fields') :
    overridden t s fields = overridden t s fields' := by
  simp only [overridden, h.mem_iff]

section
variable (workers : UInt64) {t : Settings} {text : String}

theorem parse?_spelled {v : Value} (h : v.Spelled text.toList) :
    parse? workers text = (defaults workers).setAll? v := by
  rw [parse?, Value.parse_eq_some_iff.mpr h]
  rfl

theorem load_object {fields : List Field} {members : List Member} (hnodup : fields.Nodup)
    (hsets : Sets t fields members) (h : (Value.object members).Spelled text.toList) :
    load workers (.ok text.toUTF8.data.toList) = .ok (overridden t (defaults workers) fields) := by
  apply load_toUTF8
  rw [parse?_spelled workers h, setAll?, setMembers?_sets hsets hnodup (fun _ _ => List.not_mem_nil), foldl_copy]

theorem load_array {n : Nat} {items : List Value} (hgives : List.Forall₂ (Gives t) (Field.all.take n) items)
    (h : (Value.array items).Spelled text.toList) :
    load workers (.ok text.toUTF8.data.toList) = .ok (overridden t (defaults workers) (Field.all.take n)) := by
  apply load_toUTF8
  have hset := setItems?_gives hgives (Field.all.drop n) (defaults workers)
  rw [List.take_append_drop] at hset
  rw [parse?_spelled workers h, setAll?, hset, foldl_copy]

theorem load_twice {f : Field} {key key' : List Atom} {v v' : Value} {before between behind : List Member}
    (hkey : decode? key = some f.key.toList) (hkey' : decode? key' = some f.key.toList)
    (h : (Value.object (before ++ (key, v) :: (between ++ (key', v') :: behind))).Spelled text.toList) :
    ∃ reason, load workers (.ok text.toUTF8.data.toList) = .error (.parse reason) := by
  have hnone : parse? workers text = none := by
    rw [parse?_spelled workers h]
    exact setMembers?_twice hkey hkey' (defaults workers) v v' before between behind
  refine ⟨"not a document of settings", ?_⟩
  rw [load_text, hnone]

end

/-- Any text that spells an object which gives some settings, each once: it is loaded as the defaults
    of the host with those settings overridden, whatever their order, the blanks, the escapes in the
    keys and the members that name no setting. Any text that spells an array of the values of the
    first settings: it is loaded like an object that gives these. And a text that spells an object
    with two members that name the same setting is refused, wherever they stand and whatever their
    values are. -/
theorem given_settings_loaded (workers : UInt64) (t : Settings) (text : String) :
    let loaded := load workers (.ok text.toUTF8.data.toList)
    (∀ (fields : List Field) (members : List Member), fields.Nodup → Sets t fields members →
      (Value.object members).Spelled text.toList → loaded = .ok (overridden t (defaults workers) fields)) ∧
    (∀ (n : Nat) (items : List Value), List.Forall₂ (Gives t) (Field.all.take n) items →
      (Value.array items).Spelled text.toList →
      loaded = .ok (overridden t (defaults workers) (Field.all.take n)) ∧
      ∀ (fields : List Field) (members : List Member) (asObject : String), fields.Perm (Field.all.take n) →
        Sets t fields members → (Value.object members).Spelled asObject.toList →
        load workers (.ok asObject.toUTF8.data.toList) = loaded) ∧
    ∀ (f : Field) (key key' : List Atom) (v v' : Value) (before between behind : List Member),
      decode? key = some f.key.toList → decode? key' = some f.key.toList →
      (Value.object (before ++ (key, v) :: (between ++ (key', v') :: behind))).Spelled text.toList →
      ∃ reason, loaded = .error (.parse reason) := by
  intro loaded
  refine ⟨?_, ?_, ?_⟩
  · intro fields members hnodup hsets h
    exact load_object workers hnodup hsets h
  · intro n items hgives h
    have harray : loaded = .ok (overridden t (defaults workers) (Field.all.take n)) := load_array workers hgives h
    refine ⟨harray, ?_⟩
    intro fields members asObject hperm hsets hobject
    have hnodup : fields.Nodup := hperm.nodup_iff.mpr (Field.nodup_all.sublist (List.take_sublist n Field.all))
    rw [load_object workers hnodup hsets hobject, harray, overridden_perm t (defaults workers) hperm]
  · intro f key key' v v' before between behind hkey hkey' h
    exact load_twice workers hkey hkey' h

/-- The port and the address, out of order, one key escaped, behind a member that is skipped; the same
    two in an array, the address spelled otherwise; and the port twice. -/
theorem port_and_address_loaded :
    let t : Settings := { defaults 4 with bindAddress := .v6 ⟨[0, 0, 0, 0, 0, 0, 0, 1], rfl⟩, port := 6000 }
    load 4 (.ok "\x7b\"x\":[\x7b\x7d],\r\n\"\\u0070ort\": 6000,\"bind_address\":\"::1\"\x7d".toUTF8.data.toList) =
        .ok t ∧
      load 4 (.ok "[\"0::1\",6000]".toUTF8.data.toList) = .ok t ∧
      ∃ reason, load 4 (.ok "\x7b\"port\":6000,\"x\":null,\"\\u0070ort\":6000\x7d".toUTF8.data.toList) =
        .error (.parse reason) := by
  intro t
  let escaped : List Atom := [.unit 0x70, .char 'o', .char 'r', .char 't']
  let port : Value := .number (.ofNat 6000)
  let plain (s : List Char) : List Atom := s.map .char
  have hescaped : (Token.text escaped).Spelled ['"', '\\', 'u', '0', '0', '7', '0', 'o', 'r', 't', '"'] :=
    .text (.cons (.unit rfl) (spelledAtoms_plain (s := ['o', 'r', 't']) rfl))
  have hplain {s : List Char} (h : s.all isPlain = true) : (Token.text (plain s)).Spelled ('"' :: s ++ ['"']) :=
    .text (spelledAtoms_plain h)
  have hx := hplain (s := ['x']) rfl
  have h6000 : (Token.number (.ofNat 6000)).Spelled ['6', '0', '0', '0'] :=
    .number (spelled_writeNumber (Number.kept_ofNat 6000))
  have hunknown : ∀ f : Field, f.key.toList ≠ ['x'] := fun f => by cases f <;> decide
  have hport : Gives t .port port := .value nofun
  have haddress {s : List Char} (h : Address.parse s = some t.bindAddress) :
      Gives t .bindAddress (.text (plain s)) := .address (decode?_chars s) h
  refine ⟨?_, ?_, ?_⟩
  · refine (given_settings_loaded 4 t _).1 [.port, .bindAddress]
      [(plain ['x'], .array [.object []]), (escaped, port),
        (plain Field.bindAddress.key.toList, .text (plain [':', ':', '1']))]
      (by decide)
      (.unknown rfl hunknown (.setting rfl hport (.setting rfl (haddress (by decide)) .nil))) ?_
    exact .token .openObject <| .token hx <| .token .colon <| .token .openArray <| .token .openObject <|
      .token .closeObject <| .token .closeArray <| .token .comma <| .blank rfl <| .blank rfl <| .token hescaped <|
      .token .colon <| .blank rfl <| .token h6000 <| .token .comma <| .token (hplain rfl) <| .token .colon <|
      .token (hplain rfl) <| .token .closeObject .nil
  · refine ((given_settings_loaded 4 t _).2.1 2 [.text (plain ['0', ':', ':', '1']), port]
      (.cons (haddress (by decide)) (.cons hport .nil)) ?_).1
    exact .token .openArray <| .token (hplain rfl) <| .token .comma <| .token h6000 <| .token .closeArray .nil
  · refine (given_settings_loaded 4 t _).2.2 .port (plain ['p', 'o', 'r', 't']) escaped port port
      [] [(plain ['x'], .null)] [] rfl rfl ?_
    exact .token .openObject <| .token (hplain rfl) <| .token .colon <| .token h6000 <| .token .comma <|
      .token hx <| .token .colon <| .token .null <| .token .comma <| .token hescaped <| .token .colon <|
      .token h6000 <| .token .closeObject .nil

end MessageBroker.Settings
