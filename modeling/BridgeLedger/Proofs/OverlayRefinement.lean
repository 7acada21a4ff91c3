import BridgeLedger.Proofs.ScriptExecution
import BridgeLedger.Store.Staging

/-! An overlay stands for a plain copy of its base. Whatever is staged, nested, committed or dropped, each read answers what
the copy would answer, the base stays as it is, and the staged writes, one for each key, turn the base into the copy. -/
namespace BridgeLedger

namespace StagingAnswer

mutual

def values : StagingAnswer → List (Option Octets)
  | .value v _ => [v]
  | .done _ => []
  | .nested answers _ _ => valuesOf answers

def valuesOf : List StagingAnswer → List (Option Octets)
  | [] => []
  | answer :: answers => answer.values ++ valuesOf answers

end

end StagingAnswer

namespace Store

mutual

/-- What a step reads from a plain copy, and the copy after it. Nested steps go on with the copy; if they are dropped in
the end, it is again what it was before them. -/
def replayStep (s : Store) : StagingStep → List (Option Octets) × Store
  | .get key => ([s.find? key], s)
  | .put key value => ([], s.insert key value)
  | .delete key => ([], s.erase key)
  | .apply writes => ([], s.writeAll writes)
  | .nest steps commit => ((s.replay steps).1, if commit then (s.replay steps).2 else s)

def replay (s : Store) : List StagingStep → List (Option Octets) × Store
  | [] => ([], s)
  | step :: steps =>
    let (values, s) := s.replayStep step
    let (rest, s) := s.replay steps
    (values ++ rest, s)

end

end Store

namespace Overlay

/-- The keys of the staged writes are those for which something is staged. -/
theorem keys_writes (o : Overlay) : o.writes.map Write.key = o.staged.entries.map Prod.fst := by
  rw [writes, List.map_map]
  refine List.map_congr_left fun e _ => ?_
  obtain ⟨key, _ | value⟩ := e <;> rfl

theorem ascending_writes (o : Overlay) : (o.writes.map Write.key).Pairwise (· < ·) := by
  rw [keys_writes, List.pairwise_map]
  exact o.staged.ascending

theorem nodup_writes (o : Overlay) : (o.writes.map Write.key).Nodup := by
  rw [List.nodup_iff_pairwise_ne]
  apply o.ascending_writes.imp
  intro a b hless heq
  exact List.lt_irrefl b (heq ▸ hless)

theorem length_writes (o : Overlay) : o.writes.length = o.writeCount := List.length_map _

/-- Reads from above record themselves on an overlay and stage nothing. -/
theorem staged_onOverlay {α : Type} (x : Lookup α) (o : Overlay) (s : Store) :
    ((x.toScript.onOverlay o).eval s).2.staged = o.staged := by
  induction x generalizing o with
  | done a => rfl
  | get key next ih =>
    have hget : ((o.get key).eval s).2.staged = o.staged := by
      unfold get
      cases o.staged.find? key <;> rfl
    rw [Lookup.toScript, Script.onOverlay, Lookup.eval_bind, ih, hget]

/-- Reads from above see the base with the staged writes and do not change it. -/
theorem eval_onOverlay {α : Type} (x : Lookup α) (o : Overlay) (s : Store) :
    ((x.toScript.onOverlay o).eval s).1 = x.eval (o.laidOn s) ∧
      ((x.toScript.onOverlay o).eval s).2.laidOn s = o.laidOn s := by
  have h := Script.exec_onOverlay x.toScript o s
  rwa [Script.exec_toScript] at h

mutual

/-- A step answers on an overlay what it answers on the copy for which the overlay stands. -/
theorem replay_runStep (s : Store) (o : Overlay) : (step : StagingStep) →
    ((o.runStep step).eval s).1.values = ((o.laidOn s).replayStep step).1 ∧
      ((o.runStep step).eval s).2.laidOn s = ((o.laidOn s).replayStep step).2
  | .get key => by
    obtain ⟨hvalue, hlaid⟩ := o.eval_get s key
    rw [runStep, Lookup.eval_bind']
    exact ⟨congrArg ([·]) hvalue, hlaid⟩
  | .put key value => by
    rw [runStep, Lookup.eval_bind']
    exact ⟨rfl, o.laidOn_put s key value⟩
  | .delete key => ⟨rfl, o.laidOn_delete s key⟩
  | .apply writes => by
    rw [runStep, Lookup.eval_bind']
    exact ⟨rfl, o.laidOn_writeAll s writes⟩
  | .nest steps commit => by
    obtain ⟨hvalues, hinner⟩ := replay_runSteps (o.laidOn s) empty steps
    obtain ⟨hanswer, hlaid⟩ := eval_onOverlay (empty.runSteps steps) o s
    rw [laidOn_empty] at hvalues hinner
    rw [runStep, Lookup.eval_bind']
    generalize (empty.runSteps steps).eval (o.laidOn s) = ended at hvalues hinner hanswer
    generalize ((empty.runSteps steps).toScript.onOverlay o).eval s = seen at hanswer hlaid ⊢
    obtain ⟨⟨answers, inner⟩, o'⟩ := seen
    obtain rfl : (answers, inner) = ended := hanswer
    cases commit with
    | true =>
      simp only [if_true, Lookup.eval_bind', Lookup.eval_pure]
      refine ⟨hvalues, ?_⟩
      rw [laidOn_writeAll, hlaid]
      exact hinner
    | false => exact ⟨hvalues, hlaid⟩

theorem replay_runSteps (s : Store) (o : Overlay) : (steps : List StagingStep) →
    StagingAnswer.valuesOf ((o.runSteps steps).eval s).1 = ((o.laidOn s).replay steps).1 ∧
      ((o.runSteps steps).eval s).2.laidOn s = ((o.laidOn s).replay steps).2
  | [] => ⟨rfl, rfl⟩
  | step :: steps => by
    obtain ⟨hfirst, hlaid⟩ := replay_runStep s o step
    obtain ⟨hrest, hend⟩ := replay_runSteps s ((o.runStep step).eval s).2 steps
    simp only [runSteps, Lookup.eval_bind', Lookup.eval_pure, StagingAnswer.valuesOf, Store.replay]
    rw [hfirst, hrest, hend, hlaid]
    exact ⟨rfl, rfl⟩

end

/-- An overlay above another one works on what the lower one stands for, and leaves alone what is staged there. -/
theorem replay_above (s : Store) (o : Overlay) (steps : List StagingStep) :
    ∃ answers inner o', ((empty.runSteps steps).toScript.onOverlay o).eval s = ((answers, inner), o') ∧
      o'.staged = o.staged ∧ StagingAnswer.valuesOf answers = ((o.laidOn s).replay steps).1 ∧
      (o.laidOn s).writeAll inner.writes = ((o.laidOn s).replay steps).2 := by
  obtain ⟨hvalues, hinner⟩ := replay_runSteps (o.laidOn s) empty steps
  rw [laidOn_empty] at hvalues hinner
  have hanswer := (eval_onOverlay (empty.runSteps steps) o s).1
  refine ⟨_, _, _, Prod.ext hanswer rfl, staged_onOverlay _ o s, hvalues, hinner⟩

/-- Steps on an overlay read what they would read from a plain copy of the base that receives the same writes, except
those of nested overlays that are dropped. The base stays as it is until the staged writes are applied to it, which makes
it the copy; so it is for an overlay above another one. The staged writes of any overlay have ascending keys, each of
them once, and are as many as it counts. -/
theorem stands_for_copy :
    (∀ (s : Store) (steps : List StagingStep), ∃ answers o,
      (empty.runSteps steps).toScript.run s = .ok (answers, o) s ∧
        StagingAnswer.valuesOf answers = (s.replay steps).1 ∧
        Keyspace.apply o.writes s = .ok () (s.replay steps).2) ∧
    (∀ (s : Store) (o : Overlay) (steps : List StagingStep), ∃ answers inner o',
      ((empty.runSteps steps).toScript.onOverlay o).eval s = ((answers, inner), o') ∧
        o'.staged = o.staged ∧ StagingAnswer.valuesOf answers = ((o.laidOn s).replay steps).1 ∧
        (o.laidOn s).writeAll inner.writes = ((o.laidOn s).replay steps).2) ∧
    ∀ o : Overlay, (o.writes.map Write.key).Pairwise (· < ·) ∧ (o.writes.map Write.key).Nodup ∧
      o.writes.length = o.writeCount := by
  refine ⟨fun s steps => ?_, replay_above, fun o => ⟨o.ascending_writes, o.nodup_writes, o.length_writes⟩⟩
  obtain ⟨hvalues, hlaid⟩ := replay_runSteps s empty steps
  rw [laidOn_empty] at hvalues hlaid
  refine ⟨((empty.runSteps steps).eval s).1, ((empty.runSteps steps).eval s).2, ?_, hvalues, ?_⟩
  · rw [Script.run_store, Script.exec_toScript]
  · rw [Store.apply_store]
    exact congrArg (EStateM.Result.ok ()) hlaid

end Overlay
end BridgeLedger
