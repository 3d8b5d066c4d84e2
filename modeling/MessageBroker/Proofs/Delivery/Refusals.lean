/-
  MessageBroker.Proofs.Delivery.Refusals — why a delivery is refused, and what that costs.

  A session may share its tracker with others, who file entries under any tag and take
  entries out, so it can meet every combination of a spent limit and a tag that is taken.
  - `deliver_error_iff`: the three refusals, and which of them comes first.
  - `nextTag_next`, `nextTag_final`: only a delivery that succeeds uses up a tag.
  - `refused_tag_is_next`: a refusal changes nothing, and whatever happens afterwards, the
    next delivery that can be made has the tag that was refused.
-/

import Mathlib.Algebra.Ring.Nat
import MessageBroker.Proofs.Delivery.Consumer

namespace MessageBroker.Delivery

variable {M : Type}

namespace Session

def Full (s : Session M) : Prop := ∃ n, s.limit = some n ∧ n ≤ s.tracker.size

theorem hasCredit_iff {s : Session M} (hopen : s.closed = false) : s.hasCredit = true ↔ ¬s.Full := by
  unfold hasCredit Full
  cases s.limit with
  | none => simp [hopen]
  | some n => simp [hopen]

variable [Message M]

/-- A delivery is refused by a closed session, by one that is full, or as the next tag is
    taken; the first of these that holds is told. -/
theorem deliver_error_iff (s : Session M) (message : M) (e : Error) :
    s.deliver message = .error e ↔
      (s.closed = true ∧ e = .sessionClosed) ∨
      (s.closed = false ∧ s.Full ∧ e = .prefetchExhausted) ∨
      (s.closed = false ∧ ¬s.Full ∧ s.nextTag ∈ s.tracker.tags ∧ e = .duplicateTag s.nextTag) := by
  rcases s.deliver_cases message with ⟨hclosed, h⟩ | ⟨hopen, hno, h⟩ | ⟨hopen, hcredit, hin, h⟩ | ⟨hopen, hcredit, hfree, h⟩
  · simp [h, hclosed, eq_comm]
  · have hfull : s.Full := by
      by_cases hf : s.Full
      · exact hf
      · exact absurd ((hasCredit_iff hopen).mpr hf) (by simp [hno])
    simp [h, hopen, hfull, eq_comm]
  · have hroom : ¬s.Full := (hasCredit_iff hopen).mp hcredit
    simp [h, hopen, hroom, hin, eq_comm]
  · simp [h, hopen, hfree, (hasCredit_iff hopen).mp hcredit]

theorem deliver_of_free {s : Session M} (hopen : s.closed = false) (hroom : ¬s.Full) (hfree : s.nextTag ∉ s.tracker.tags)
    (message : M) : s.deliver message = .ok (s.nextTag, s.track message) := by
  have hcredit : s.hasCredit = true := (hasCredit_iff hopen).mpr hroom
  rcases s.deliver_cases message with ⟨hclosed, -⟩ | ⟨-, hno, -⟩ | ⟨-, -, hin, -⟩ | ⟨-, -, -, h⟩
  · rw [hopen] at hclosed
    cases hclosed
  · rw [hcredit] at hno
    cases hno
  · exact absurd hin hfree
  · exact h

end Session

namespace Consumer

variable [Message M]

/-- A request that delivers nothing leaves the next tag, be it somebody else's or not. -/
theorem nextTag_next {c : Consumer M} {r : Request M} (hd : delivered ⟨c, r⟩ = []) :
    (c.next r).session.nextTag = c.session.nextTag := by
  cases hshared : r.isShared with
  | false => exact (next_session hshared hd).2.1
  | true =>
    cases r with
    | shared r => rfl
    | _ => cases hshared

theorem nextTag_final {c : Consumer M} {requests : List (Request M)}
    (hd : ∀ m ∈ History.moments next c requests, delivered m = []) :
    (History.final next c requests).session.nextTag = c.session.nextTag := by
  induction requests generalizing c with
  | nil => rfl
  | cons r rest ih =>
    have hfirst : delivered ⟨c, r⟩ = [] := hd _ List.mem_cons_self
    have hrest : (History.final next (c.next r) rest).session.nextTag = (c.next r).session.nextTag :=
      ih fun m hm => hd m (List.mem_cons_of_mem _ hm)
    exact hrest.trans (nextTag_next hfirst)

/-- Of every session whose tags have not run out, whoever shares its tracker and whatever
    they did to it. A delivery is refused exactly if the session is closed, else if it is
    full, else if the next tag is taken, and it is told which; a refusal changes nothing at
    all, and any other delivery has the next tag. After a refusal the tag is kept: however
    many requests follow, the consumer's own and those of others, as long as none of them
    delivers, a delivery that nothing keeps from it has that very tag. -/
theorem refused_tag_is_next (c : Consumer M) (message : M) (room : c.session.nextTag.toNat < 2 ^ 64 - 1) :
    let s := c.session
    (∀ e, s.deliver message = .error e ↔
      (s.closed = true ∧ e = .sessionClosed) ∨
      (s.closed = false ∧ s.Full ∧ e = .prefetchExhausted) ∨
      (s.closed = false ∧ ¬s.Full ∧ s.nextTag ∈ s.tracker.tags ∧ e = .duplicateTag s.nextTag)) ∧
    (∀ e, s.deliver message = .error e → c.step (.deliver message) = (.refused e, c)) ∧
    ((∀ e, s.deliver message ≠ .error e) →
      c.step (.deliver message) = (.delivered s.nextTag, { c with session := s.track message }) ∧
        (s.track message).nextTag.toNat = s.nextTag.toNat + 1) ∧
    ∀ requests, (∀ m ∈ History.moments next c (.deliver message :: requests), delivered m = []) →
      let later := History.final next c (.deliver message :: requests)
      later.session.closed = false → ¬later.session.Full → s.nextTag ∉ later.session.tracker.tags →
      ∀ again, later.step (.deliver again) =
        (.delivered s.nextTag, { later with session := later.session.track again }) := by
  intro s
  refine ⟨s.deliver_error_iff message, ?_, ?_, ?_⟩
  · intro e he
    exact step_deliver_of_error he
  · intro hnone
    cases hdeliver : s.deliver message with
    | error e => exact absurd hdeliver (hnone e)
    | ok answer =>
      have hok : s.deliver message = .ok (s.nextTag, s.track message) := by
        rcases s.deliver_cases message with ⟨-, h⟩ | ⟨-, -, h⟩ | ⟨-, -, -, h⟩ | ⟨-, -, -, h⟩
        · exact absurd h (hnone _)
        · exact absurd h (hnone _)
        · exact absurd h (hnone _)
        · exact h
      refine ⟨step_deliver_of_ok hok, ?_⟩
      show (s.nextTag + 1).toNat = s.nextTag.toNat + 1
      rw [UInt64.toNat_add]
      show (s.nextTag.toNat + 1) % 2 ^ 64 = s.nextTag.toNat + 1
      have hlt : s.nextTag.toNat < 2 ^ 64 - 1 := room
      omega
  · intro requests hnone later hopen hcredit hfree again
    -- the tag refused is still the next one
    have htag : later.session.nextTag = s.nextTag := nextTag_final hnone
    rw [← htag] at hfree ⊢
    exact step_deliver_of_ok (Session.deliver_of_free hopen hcredit hfree again)

/-- Two may be in flight. One is, and somebody else has filed an entry under the next tag,
    2: so a delivery is refused as the session is full, then as the tag is taken, and then
    it has tag 2. -/
theorem refused_twice_then_delivered :
    let c : Consumer UInt64 := History.final next (withLimit (some 2)) [.deliver 10, .shared (.add 2 20)]
    let between : List (Request UInt64) := [.reject 1, .deliver 30, .shared (.remove 2)]
    let later := History.final next c (.deliver 30 :: between)
    c.session.nextTag.toNat < 2 ^ 64 - 1 ∧ (∀ m ∈ History.moments next c (.deliver 30 :: between), delivered m = []) ∧
    c.session.deliver 30 = .error .prefetchExhausted ∧ c.step (.deliver 30) = (.refused .prefetchExhausted, c) ∧
    ((c.next (.reject 1)).step (.deliver 30)).1 = .refused (.duplicateTag 2) ∧
    (later.step (.deliver 30)).1 = .delivered 2 := by
  intro c between later
  have room : c.session.nextTag.toNat < 2 ^ 64 - 1 := by decide
  have hnone : ∀ m ∈ History.moments next c (.deliver 30 :: between), delivered m = [] := by decide
  obtain ⟨hrefused, hsame, -, hkept⟩ := refused_tag_is_next c 30 room
  have hfull : c.session.Full := ⟨2, rfl, by decide⟩
  have hfirst : c.session.deliver 30 = .error .prefetchExhausted := (hrefused _).mpr (.inr (.inl ⟨rfl, hfull, rfl⟩))
  have hroom : ¬later.session.Full := by
    rintro ⟨n, hn, hle⟩
    obtain rfl : 2 = n := Option.some.inj hn
    exact absurd hle (by decide)
  have hlast := hkept between hnone rfl hroom (by decide) 30
  refine ⟨room, hnone, hfirst, hsame _ hfirst, rfl, ?_⟩
  rw [hlast]
  rfl

end Consumer

end MessageBroker.Delivery
