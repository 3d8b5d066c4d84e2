/-
  MessageBroker.Proofs.Selector.Rehearsing — what a rehearsed selector does to the pool.

  Beside the pool the selector's thread takes offers and dispatches connections, and a dispatch
  is one more way to put a connection on the queue. So the pool of a rehearsal goes through one
  run, in which nobody misreads the gauge; and as it has one worker, nothing is put on its queue
  again by a worker (`rehearsed`).
-/

import MessageBroker.Proofs.Pool.Rehearsing
import MessageBroker.Proofs.Pool.Turns
import MessageBroker.Selector.Rehearsal

namespace MessageBroker.Selector

open Pool (Call Reply Cast)
open Pool.State (Leads)

namespace World

theorem dispatch_leads (h : World) (token : Token) (pool : Pool.State String) :
    ∃ made, Leads pool made (h.dispatch token pool).1 := by
  unfold dispatch
  split
  · exact ⟨[], .refl pool⟩
  · rename_i c selector _
    have hscheduled : Leads pool _ (pool.schedule c (.returned true)).2 :=
      .single (e := .schedule c (.returned true)) nofun
    dsimp only
    split <;> rename_i heq <;> rw [heq] at hscheduled <;> exact ⟨_, hscheduled⟩

/-- The selector's thread takes an offer, which is nothing to the pool, or dispatches a connection. -/
theorem beside_leads {pool pool' : Pool.State String} {h h' : World} (hstep : beside pool h = some (pool', h')) :
    ∃ made, Leads pool made pool' := by
  unfold beside at hstep
  split at hstep
  · split at hstep
    · cases hstep
      exact ⟨[], .refl pool⟩
    · obtain ⟨⟨token, c⟩, -, hdispatch⟩ := Option.map_eq_some_iff.mp hstep
      have hdispatched : h.dispatch token pool = (pool', h') := hdispatch
      obtain ⟨made, hleads⟩ := h.dispatch_leads token pool
      rw [hdispatched] at hleads
      exact ⟨made, hleads⟩
  · cases hstep

/-- The selector's log has other lines than those of calls, so nothing is said of it. -/
theorem cast_notes : cast.Notes fun _ _ => True where
  answer _ _ _ := trivial
  within _ _ := trivial
  beside hstep _ := (beside_leads hstep).imp fun _ hleads => ⟨hleads, trivial⟩

end World

namespace Rehearsal

def Goes (r r' : Rehearsal) : Prop := ∃ made, Leads r.pool made r'.pool

theorem Goes.trans {r r' r'' : Rehearsal} (h : r.Goes r') (h' : r'.Goes r'') : r.Goes r'' := by
  obtain ⟨made, hleads⟩ := h
  obtain ⟨more, hleads'⟩ := h'
  exact ⟨made ++ more, hleads.trans hleads'⟩

theorem settle_goes (r : Rehearsal) : r.Goes r.settle := by
  obtain ⟨made, hleads, -⟩ := Cast.settle_goes World.cast_notes r.fuel r.pool r.world [] trivial
  exact ⟨made, hleads⟩

theorem request_goes (r : Rehearsal) (request : Request) : r.Goes (r.request request) := by
  cases request with
  | offer a => exact settle_goes { r with world := (r.world.put a).offer a.name }
  | schedule a =>
    have hscheduled : Leads r.pool _ (r.pool.schedule a.name (.returned true)).2 :=
      .single (e := .schedule a.name (.returned true)) nofun
    unfold Rehearsal.request
    dsimp only
    split
    · rename_i pool heq
      rw [heq] at hscheduled
      exact ⟨_, hscheduled⟩
    · rename_i pool _ heq
      rw [heq] at hscheduled
      exact .trans ⟨_, hscheduled⟩ (settle_goes { pool, world := r.world.put a })
  | input c => exact settle_goes { r with world := r.world.put { r.world.find c with readable := true } }
  | stopSelector => exact ⟨[], .refl r.pool⟩
  | closePool =>
    have hcalled : Leads r.pool _ r.pool.callClose := .single (e := .callClose) nofun
    exact .trans ⟨_, hcalled⟩ (settle_goes { r with pool := r.pool.callClose })

/-- A rehearsal of any requests takes its pool of one worker through one run in which nobody
    misreads the gauge, so its worker puts nothing on the queue again. -/
theorem rehearsed (spawned : Bool) (requests : List Request) :
    (start spawned).Goes (requests.foldl request (start spawned)) ∧
      (requests.foldl request (start spawned)).pool.metrics.resubmits = 0 := by
  have hgoes : (start spawned).Goes (requests.foldl request (start spawned)) :=
    List.foldlRecOn (motive := (start spawned).Goes) requests _ ⟨[], .refl _⟩ fun r hr request _ =>
      hr.trans (request_goes r request)
  refine ⟨hgoes, ?_⟩
  obtain ⟨made, events, hfresh, hpool, -⟩ := hgoes
  obtain ⟨_, _, _, hturn⟩ := Pool.State.inTurn events hfresh
  rw [← hpool]
  exact hturn.resubmits

end Rehearsal

end MessageBroker.Selector
