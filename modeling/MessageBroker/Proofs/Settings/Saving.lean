/-
  MessageBroker.Proofs.Settings.Saving — settings that are saved come back.

  The document of settings gives every setting once, so it leaves nothing of the settings it is read
  into (`setAll?_toValue`). What is written as text is read as the same document, and the bytes of
  the text as the text.
  - `load_render`: settings are loaded from the text they are saved as, on any host.
-/

import MessageBroker.Proofs.Settings.Document

namespace MessageBroker.Settings

open Network Json

/-! ## The document -/

theorem sets_get (t : Settings) (fields : List Field) :
    Sets t fields (fields.map fun f => (f.key.toList.map .char, t.get f)) := by
  induction fields with
  | nil => exact .nil
  | cons f fields ih => exact .setting (decode?_chars f.key.toList) (gives_get t f) ih

/-- The document of settings sets all of them. -/
theorem setAll?_toValue (t s : Settings) : s.setAll? t.toValue = some t := by
  have hset := setMembers?_sets (sets_get t Field.all) Field.nodup_all (fun _ _ => List.not_mem_nil) s
  rw [copy_all] at hset
  exact hset

/-! ## The text -/

theorem kept_get (s : Settings) (f : Field) : (s.get f).Kept := by
  cases f with
  | bindAddress =>
    rw [get, Value.ofText, Address.text, String.toList_ofList]
    exact Value.kept_text fun c => Address.printable
  | noDelay => exact fun t ht => by cases List.mem_singleton.mp ht; trivial
  | prefetchLimit =>
    rw [get]
    split
    · exact Value.kept_number _
    · exact fun t ht => by cases List.mem_singleton.mp ht; trivial
  | port | workers | backlog | maxMessageSize | readBudget | deliveryBatch => exact Value.kept_number _

theorem Field.printable_key (f : Field) : ∀ c ∈ f.key.toList, 0x20 ≤ c.toNat := by
  have hall : f.key.toList.all (0x20 ≤ ·.toNat) = true := by cases f <;> rfl
  intro c hc
  exact of_decide_eq_true (List.all_eq_true.mp hall c hc)

theorem kept_toValue (s : Settings) : s.toValue.Kept := by
  refine Value.kept_object fun m hm => ?_
  obtain ⟨f, -, rfl⟩ := List.mem_map.mp hm
  exact ⟨Value.kept_text f.printable_key, s.kept_get f⟩

theorem parse?_render (workers : UInt64) (s : Settings) : parse? workers s.render = some s := by
  simp [parse?, render, Value.parse_render s.kept_toValue, setAll?_toValue]

/-- Settings come back from the text they are saved as, whatever host loads them, and addresses
    from theirs. -/
theorem load_render :
    (∀ (workers : UInt64) (s : Settings), load workers (.ok s.render.toUTF8.data.toList) = .ok s) ∧
      ∀ x : Address, Address.ofText? x.text = some x :=
  ⟨fun workers s => load_toUTF8 (parse?_render workers s), Address.ofText?_text⟩

end MessageBroker.Settings
