import Crabscale.Control.KeyBinding

/-!
# The size of the table of pending registrations

The limit is that of the cache in memory; nothing is ever dropped from the table to make room. The
table keeps to the limit just as long as no registration is started when it is full
(`pending_bounded`, `pending_over_limit`).
-/

namespace Crabscale.Control

open Rust Proto Policy Interaction Interaction.Program ControlPlane

variable {cp : ControlPlane} {op : Op} {w₀ : World}

def HasRoom (cp : ControlPlane) (w : World) (op : Op) : Prop :=
  op.Starts cp w → w.db.pending.length < cp.config.pendingCacheLimit

/-- A saved registration takes one row at most, and none when it is saved over another one. -/
theorem save_pending_length (db : Db) (entry : PendingRegistration) :
    (db.savePending entry).2.pending.length ≤ db.pending.length + 1 ∧
      ((db.getPending entry.authId).isSome →
        (db.savePending entry).2.pending.length = db.pending.length) := by
  unfold Db.savePending
  split
  case isTrue hstored =>
    obtain hsame | htables := Db.statement_cases db { db.toTables with
      pending := db.pending.map fun row =>
        if row.entry.authId = entry.authId then { row with entry } else row } ()
    · rw [hsame]
      exact ⟨Nat.le_succ _, fun _ => rfl⟩
    · rw [htables, List.length_map]
      exact ⟨Nat.le_succ _, fun _ => rfl⟩
  case isFalse hstored =>
    refine ⟨?_, fun h => (hstored h).elim⟩
    obtain hsame | htables := Db.statement_cases db { db.toTables with
      pending := db.pending ++ [{ rowid := nextRowid (db.pending.map PendingRow.rowid), entry }]
      lastInsertRowid := nextRowid (db.pending.map PendingRow.rowid) } ()
    · exact (congrArg (·.pending.length) hsame).trans_le (Nat.le_succ _)
    · exact (congrArg (·.pending.length) htables).trans_le (List.length_append ..).le

theorem pending_length_le {c : Call} (hc : ∀ entry, c ≠ .store (.savePending entry)) (w : World) :
    (handler c w).2.db.pending.length ≤ w.db.pending.length := by
  obtain hsame | ⟨entry, rfl⟩ | ⟨authId, rfl⟩ := c.pending_cases w
  · exact (congrArg List.length hsame).le
  · exact (hc entry rfl).elim
  · change (w.db.deletePending authId).2.pending.length ≤ _
    unfold Db.deletePending
    obtain hsame | htables := Db.statement_cases w.db
      { w.db.toTables with pending := w.db.pending.filter (·.entry.authId ≠ authId) } ()
    · rw [hsame]
    · rw [htables]
      exact List.length_filter_le _ _

theorem pending_step {w : World} (hroom : HasRoom cp w op)
    (h : w.db.pending.length ≤ cp.config.pendingCacheLimit) :
    (op.exec cp w).db.pending.length ≤ cp.config.pendingCacheLimit := by
  refine Safe.invariant (I := fun w => w.db.pending.length ≤ cp.config.pendingCacheLimit)
    (fun w' c hw' hc => ?_) (op.deeds w rfl).1 h
  by_cases hsaves : ∃ entry, c = .store (.savePending entry)
  · obtain ⟨entry, rfl⟩ := hsaves
    obtain ⟨hlength, hover⟩ := save_pending_length w'.db entry
    obtain hstored | ⟨hstarts, hsame⟩ := hc.saves
    · exact (hover hstored).trans_le hw'
    · rw [hsame] at hlength
      exact hlength.trans (hroom hstarts)
  · exact (pending_length_le (fun entry heq => hsaves ⟨entry, heq⟩) w').trans hw'

/-- The table of pending registrations keeps to the limit in every run in which no registration is
started while it is full. -/
theorem pending_bounded {env : Env} {w : World}
    (hrun : Runs cp (HasRoom cp) (fun _ => True) (cp.withStore Db.empty env) w) :
    w.db.pending.length ≤ cp.config.pendingCacheLimit := by
  induction hrun with
  | refl _ => exact Nat.zero_le _
  | step _ hroom _ ih => exact pending_step hroom ih

def tightServer : ControlPlane :=
  { openServer with config := { openServer.config with pendingCacheLimit := 1 } }

def freshEnv : Env := { stillEnv with secrets := fun i => String.ofList (List.replicate i 'x') }

-- With room for both, two machines that ask have a registration each.
def oneAsked : World := (askFor 1 1).exec tightServer (tightServer.withStore Db.empty freshEnv)

theorem pending_bounded_one :
    oneAsked.db.pending.length = 1 ∧
      oneAsked.db.pending.length ≤ tightServer.config.pendingCacheLimit :=
  ⟨by decide +kernel, pending_bounded (.step (.refl trivial) (fun _ => by decide +kernel) trivial)⟩

/-- With a limit of one, two machines that ask for a node key have two registrations pending. -/
theorem pending_over_limit :
    ¬(runOps tightServer [askFor 1 1, askFor 2 2]
        (tightServer.withStore Db.empty freshEnv)).db.pending.length ≤
      tightServer.config.pendingCacheLimit := by
  decide +kernel

end Crabscale.Control
