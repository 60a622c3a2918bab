import Adro.EventStore.ReadBack

/-!
# Streams over whole runs

What the tables of either adapter owe to every run: rows are only added, a message
of the outbox stands beside a committed event, and who reads one stream sees nothing of
the calls on others.
-/

namespace Adro.EventStore

open Adro.Go Adro.Event

variable {db db' : Database} {s : Bytes}

theorem tables_append_only (backend : Backend) (p : Platform) (run more : List Call) :
    let db := Runs.exec (step backend p) .empty run
    let db' := Runs.exec (step backend p) .empty (run ++ more)
    db.records.rows <+: db'.records.rows ∧ db.outbox.rows <+: db'.outbox.rows ∧
      ∀ s, (headOf db s).1 ≤ (headOf db' s).1 := by
  intro db db'
  obtain ⟨l, hl, -⟩ := Refines.empty.run (p := p) backend run
  obtain ⟨l', hl', rest, rfl⟩ := hl.run backend more
  rw [← Runs.exec_append] at hl'
  refine ⟨?_, ?_, fun s => ?_⟩
  · rw [hl.records, hl'.records, List.flatMap_append]
    exact List.prefix_append _ _
  · rw [hl.outbox, hl'.outbox, List.flatMap_append]
    exact List.prefix_append _ _
  · rw [hl.headOf, hl'.headOf]
    simp only [Ledger.events, Ledger.ofStream, List.filter_append, List.flatMap_append,
      List.length_append]
    omega

theorem mem_messageRows {m : OutboxRow} (h : m ∈ messageRows t s n i ms) :
    m.tenantID = t ∧ m.streamID = s ∧ m.sequence = n := by
  induction ms generalizing i with
  | nil => cases h
  | cons x ms ih =>
    rcases List.mem_cons.1 h with rfl | h
    · exact ⟨rfl, rfl, rfl⟩
    · exact ih h

/-- A message is committed with the last event of its append, and no event lies past the head. -/
theorem outbox_beside_events (backend : Backend) (p : Platform) (run : List Call) :
    let db := Runs.exec (step backend p) .empty run
    (∀ m ∈ db.outbox.rows, ∃ r ∈ db.records.rows,
      r.tenantID = m.tenantID ∧ r.streamID = m.streamID ∧ r.sequence = m.sequence) ∧
    ∀ r ∈ db.records.rows, 1 ≤ r.sequence ∧ r.sequence ≤ (headOf db r.streamID).1 := by
  intro db
  obtain ⟨l, hl, -⟩ := Refines.empty.run (p := p) backend run
  constructor
  · intro m hm
    rw [hl.outbox, List.mem_flatMap] at hm
    obtain ⟨b, hb, hm⟩ := hm
    obtain ⟨ht, hs, hn⟩ := mem_messageRows hm
    have he := List.getLast_mem b.nonempty
    have hlast : (resultOf b.envelopes).lastSequence =
      (b.envelopes.getLast b.nonempty).sequence := by
      simp [resultOf, List.getLast?_eq_some_getLast b.nonempty]
    refine ⟨rowOf b.validated.digest (b.envelopes.getLast b.nonempty), ?_, ?_⟩
    · rw [hl.records, List.mem_flatMap]
      exact ⟨b, hb, List.mem_map_of_mem he⟩
    · obtain ⟨hs', ht', -⟩ := b.scope he
      exact ⟨ht'.trans ht.symm, hs'.trans hs.symm, hlast.symm.trans hn.symm⟩
  · intro r hr
    rw [hl.records, List.mem_flatMap] at hr
    obtain ⟨b, hb, hr⟩ := hr
    obtain ⟨e, he, rfl⟩ := List.mem_map.1 hr
    have hmem := Ledger.mem_events hb he
    rw [← (b.scope he).1] at hmem
    have hbounds := (hl.grown.stream e.streamID).numbered.bounds hmem
    show 1 ≤ e.sequence ∧ e.sequence ≤ (headOf _ e.streamID).1
    rw [hl.headOf]
    omega

/-- Reading a stream looks at its own rows only. -/
theorem read_congr (hstream : db'.findStream s = db.findStream s)
    (hrows : (db'.records.rows.filter fun r => r.streamID = s) =
      db.records.rows.filter fun r => r.streamID = s) :
    read p db' s = read p db s ∧ head p db' s = head p db s := by
  have hat : db'.findAt s = db.findAt s := by
    funext n
    have h := congrArg (List.find? fun r => r.sequence = n) hrows
    simpa [List.find?_filter, Database.findAt, Table.find] using h
  have hafter : db'.recordsAfter s = db.recordsAfter s := by
    funext after limit
    have h := congrArg (List.filter fun r => after < r.sequence) hrows
    simp only [List.filter_filter, ← Bool.decide_and, and_comm (a := after < _)] at h
    rw [Database.recordsAfter, h]
    rfl
  constructor
  · funext after limit
    simp only [read, digestAt, hstream, hat, hafter]
  · simp only [head, hstream, hat]

def Call.AppendsTo (s : Bytes) : Call → Prop
  | .append request _ _ _ => request.streamID = s
  | _ => False

/-- A run without an append to a stream leaves what its readers see. -/
theorem reads_elsewhere (backend : Backend) (p : Platform) (db : Database) (run : List Call)
    (s : Bytes) :
    let db' := Runs.exec (step backend p) db run
    (∃ c ∈ run, c.AppendsTo s) ∨ (read p db' s = read p db s ∧ head p db' s = head p db s) := by
  induction run generalizing db with
  | nil => exact .inr ⟨rfl, rfl⟩
  | cons c run ih =>
    have hstep : c.AppendsTo s ∨
        (read p (step backend p db c) s = read p db s ∧ head p (step backend p db c) s =
          head p db s) := by
      rcases step_cases backend p db c with ⟨hs, -⟩ | ⟨request, _, _, _, _, _, rfl, ha, -⟩
      · exact .inr (read_congr (by rw [Database.findStream, hs.streams]; rfl) (by rw [hs.records]))
      · by_cases hid : request.streamID = s
        · exact .inl hid
        · refine .inr (read_congr (by rw [ha.streams, if_neg hid]) ?_)
          rw [ha.records, List.filter_append, List.append_right_eq_self, List.filter_eq_nil_iff]
          intro r hr hs
          obtain ⟨e, he, rfl⟩ := List.mem_map.1 hr
          exact hid ((ha.batch.scope he).1.symm.trans (of_decide_eq_true hs))
    rcases hstep with h | h
    · exact .inl ⟨c, List.mem_cons_self, h⟩
    · rcases ih (step backend p db c) with ⟨c', hc', h'⟩ | h'
      · exact .inl ⟨c', List.mem_cons_of_mem _ hc', h'⟩
      · exact .inr ⟨h'.1.trans h.1, h'.2.trans h.2⟩

end Adro.EventStore
