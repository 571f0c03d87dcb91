import Rvx.Engine.Consistency

/-!
# Batches

A batch runs every page in its own savepoint.  It has the results and the final state of ingesting
the pages one after another, where a rejected page changes nothing at all.
-/

namespace Rvx.Engine

open Core Script

variable {serde : Serde}

/-- The intended meaning of a batch. -/
def ingestSequentially (serde : Serde) :
    List Delivery → Database → List (Except EngineError ℕ) × Database
  | [], db => ([], db)
  | delivery :: rest, db =>
    let (result, middle) := (delivery.ingest serde).atomically db
    let (results, db') := ingestSequentially serde rest middle
    (result :: results, db')

theorem ingestPages_eq (pages : List Delivery) (connection : Connection Database) :
    ingestPages serde pages connection =
      (.ok (ingestSequentially serde pages connection.current).1,
        ⟨(ingestSequentially serde pages connection.current).2, connection.saved⟩) := by
  induction pages generalizing connection with
  | nil => rfl
  | cons delivery rest ih =>
    simp only [ingestPages, bind, guarded_eq, ih, ingestSequentially]
    rfl

theorem ingestBatch_eq (pages : List Delivery) (db : Database) :
    ingestBatch serde pages db =
      (.ok (ingestSequentially serde pages db).1, (ingestSequentially serde pages db).2) := by
  simp only [ingestBatch, bind, savepoint, Script.modify, ingestPages_eq, release, pure]

theorem ingestSequentially_append (before after : List Delivery) (db : Database) :
    ingestSequentially serde (before ++ after) db =
      ((ingestSequentially serde before db).1 ++
          (ingestSequentially serde after (ingestSequentially serde before db).2).1,
        (ingestSequentially serde after (ingestSequentially serde before db).2).2) := by
  induction before generalizing db with
  | nil => rfl
  | cons delivery rest ih => simp only [List.cons_append, ingestSequentially, ih]

theorem length_ingestSequentially (pages : List Delivery) (db : Database) :
    (ingestSequentially serde pages db).1.length = pages.length := by
  induction pages generalizing db with
  | nil => rfl
  | cons delivery rest ih => simp only [ingestSequentially, List.length_cons, ih]

/-- A batch equals ingesting its pages one after another, and leaving a rejected page out of the
batch changes neither the final state nor the result of any other page. -/
theorem ingestBatch_isolated (serde : Serde) (pages : List Delivery) (db : Database) :
    ingestBatch serde pages db =
        (.ok (ingestSequentially serde pages db).1, (ingestSequentially serde pages db).2) ∧
      ∀ before rejected after reason, pages = before ++ rejected :: after →
        (rejected.ingest serde (ingestSequentially serde before db).2).1 = .error reason →
        ∃ first last, first.length = before.length ∧
          (ingestBatch serde pages db).1 = .ok (first ++ .error reason :: last) ∧
          (ingestBatch serde (before ++ after) db).1 = .ok (first ++ last) ∧
          (ingestBatch serde pages db).2 = (ingestBatch serde (before ++ after) db).2 := by
  refine ⟨ingestBatch_eq pages db, fun before rejected after reason hpages hrejected ↦ ?_⟩
  have hrolled : (rejected.ingest serde).atomically (ingestSequentially serde before db).2 =
      (.error reason, (ingestSequentially serde before db).2) := by
    unfold atomically
    generalize hrun : rejected.ingest serde (ingestSequentially serde before db).2 = outcome
    obtain ⟨result, middle⟩ := outcome
    rw [hrun] at hrejected
    dsimp only at hrejected
    rw [hrejected]
  refine ⟨(ingestSequentially serde before db).1,
    (ingestSequentially serde after (ingestSequentially serde before db).2).1,
    length_ingestSequentially before db, ?_, ?_, ?_⟩
  · rw [ingestBatch_eq, hpages, ingestSequentially_append]
    simp only [ingestSequentially, hrolled]
  · rw [ingestBatch_eq, ingestSequentially_append]
  · rw [ingestBatch_eq, ingestBatch_eq, hpages, ingestSequentially_append,
      ingestSequentially_append]
    simp only [ingestSequentially, hrolled]

/-! ## The raw tables under a batch -/

/-- A page of a batch is rejected without effect, or accepted. -/
theorem atomically_cases (serde : Serde) (delivery : Delivery) {db : Database}
    (hdb : Consistent db) :
    (∃ reason, (delivery.ingest serde).atomically db = (.error reason, db)) ∨
      ∃ n db', (delivery.ingest serde).atomically db = (.ok n, db') ∧
        checkPage delivery.source delivery.descriptor delivery.page = .ok () ∧
        Ingested serde delivery.source delivery.page db n db' := by
  generalize hrun : (delivery.ingest serde).atomically db = outcome
  obtain ⟨result, db'⟩ := outcome
  cases result with
  | error reason => exact Or.inl ⟨reason, by rw [atomically_error hrun]⟩
  | ok n =>
    obtain ⟨hcheck, hingested⟩ := ingestPage_returns
      (hdb.cursorBounds delivery.source delivery.page.sourceSessionId) (atomically_ok.mp hrun)
    exact Or.inr ⟨n, db', rfl, hcheck, hingested⟩

theorem atomically_consistent (serde : Serde) (delivery : Delivery) {db : Database}
    (hdb : Consistent db) :
    Consistent ((delivery.ingest serde).atomically db).2 ∧
      Grows db ((delivery.ingest serde).atomically db).2 := by
  rcases atomically_cases serde delivery hdb with ⟨reason, hrun⟩ | ⟨n, db', hrun, hcheck, hingested⟩
  · rw [hrun]
    exact ⟨hdb, Grows.refl db⟩
  · rw [hrun]
    exact hingested.consistent (checkPage_ok.mp hcheck).2.1 hdb

theorem ingestSequentially_consistent (serde : Serde) (pages : List Delivery) {db : Database}
    (hdb : Consistent db) :
    Consistent (ingestSequentially serde pages db).2 ∧
      Grows db (ingestSequentially serde pages db).2 := by
  induction pages generalizing db with
  | nil => exact ⟨hdb, Grows.refl db⟩
  | cons delivery rest ih =>
    obtain ⟨hmiddle, hgrows⟩ := atomically_consistent serde delivery hdb
    obtain ⟨hfinal, hgrows'⟩ := ih hmiddle
    exact ⟨hfinal, hgrows.trans hgrows'⟩

end Rvx.Engine
