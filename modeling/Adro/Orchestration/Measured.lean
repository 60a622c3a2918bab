import Adro.Orchestration.Reconcile
import Adro.Orchestration.Usage

/-!
# What a reconciled attempt is charged

The usage measured in a snapshot and the fields of the provider's marker go into
one map, in which the marker wins. The counters grow by what was measured as long
as the marker leaves the keys of the usage alone or repeats what was measured.
-/

namespace Adro.Orchestration

open Adro.Go

variable {W : WorkerHost} {plan : RequirementExecutionPlan} {p q : PlanProjection} {s s' : Session}
  {a b : NodeAttempt} {o : Observation} {snapshot : RunSnapshot} {now : Time} {key : String}
  {n : Int}

def RunSnapshot.measured (s : RunSnapshot) : Usage where
  tokens := s.inputTokens + s.outputTokens
  tools := s.toolEvents.length
  cost := if (F64.finite 0).lt s.estimatedCost then
    (s.estimatedCost.mul (.finite 100)).toInt64 else 0

/-- The fields of the marker that are merged into the result: none when the run was
cancelled, and none when a completed run has an outcome without a tool call for it. -/
def RunSnapshot.markerFields (W : WorkerHost) (s : RunSnapshot) : GoMap Value :=
  if ["cancelled", "canceled"].contains (s.normalStatus W) ||
    completedStatuses.contains (s.normalStatus W) && (s.marker W).outcome != "" &&
      !hasProviderToolEvidence W s then ∅
  else (s.marker W).fields

def PlanProjection.used (p : PlanProjection) : Usage := ⟨p.tokenUsage, p.toolCalls, p.costCents⟩

def Charged (p q : PlanProjection) (u : Usage) : Prop :=
  q.used = ⟨p.used.tokens + u.tokens, p.used.tools + u.tools, p.used.cost + u.cost⟩

/-- The fields leave what was measured as it is, and the counter has room for it. -/
def Undisplaced (fields : GoMap Value) (key : String) (count n : Int) : Prop :=
  (if fields[key]?.isSome then usageInt64 fields key = i64 n else 0 ≤ i64 n) ∧
    -2 ^ 63 ≤ count + n ∧ count + n ≤ maxInt64

instance (fields : GoMap Value) (count : Int) : Decidable (Undisplaced fields key count n) :=
  inferInstanceAs (Decidable (_ ∧ _))

def LeavesUsage (fields : GoMap Value) (used u : Usage) : Prop :=
  Undisplaced fields "tokens" used.tokens u.tokens ∧
    Undisplaced fields "tool_calls" used.tools u.tools ∧
    Undisplaced fields "cost_cents" used.cost u.cost

instance (fields : GoMap Value) (used u : Usage) : Decidable (LeavesUsage fields used u) :=
  inferInstanceAs (Decidable (_ ∧ _))

theorem get_overwrites {l : List (String × Value)} (base : GoMap Value)
    (h : ∀ e ∈ l, e.1 = key → e.2 = v) :
    (l.foldl (fun m e => m.insert e.1 e.2) base)[key]? =
      if key ∈ l.map Prod.fst then some v else base[key]? := by
  induction l generalizing base with
  | nil => simp
  | cons e l ih =>
    obtain ⟨he, hl⟩ := List.forall_mem_cons.mp h
    rw [List.foldl_cons, ih _ hl, GoMap.get_set]
    by_cases hkey : e.1 = key
    · simp [hkey, he hkey]
    · rw [List.map_cons, if_neg hkey]
      simp only [List.mem_cons, Ne.symm hkey, false_or]

theorem get_mergeProviderFields (base extra : GoMap Value) :
    (mergeProviderFields base extra)[key]? = extra[key]?.or base[key]? := by
  unfold mergeProviderFields
  cases hextra : extra[key]? with
  | none =>
    have hnone : ∀ e ∈ extra.toList, e.1 ≠ key := by
      rintro e he rfl
      simp [GoMap.mem_entries.mp he] at hextra
    have hkeys : key ∉ extra.toList.map Prod.fst := fun hmem => by
      obtain ⟨e, he, hkey⟩ := List.mem_map.mp hmem
      exact hnone e he hkey
    rw [get_overwrites base fun e he hkey => absurd hkey (hnone e he), if_neg hkeys]
    · rfl
    · exact .null
  | some v =>
    have hsome : ∀ e ∈ extra.toList, e.1 = key → e.2 = v := by
      rintro e he rfl
      simpa [hextra, eq_comm] using GoMap.mem_entries.mp he
    have hkeys : key ∈ extra.toList.map Prod.fst :=
      List.mem_map.mpr ⟨(key, v), GoMap.mem_entries.mpr hextra, rfl⟩
    rw [get_overwrites base hsome, if_pos hkeys]
    rfl

theorem get_completedReport {failure : Option FailureReason} :
    (completedReport snapshot runID m usage failure).result.fields[key]? =
      m.fields[key]?.or usage[key]? := by
  unfold completedReport
  by_cases hempty : m.fields.isEmpty = true
  · have hfields : m.fields = ∅ := by simpa using hempty
    split_ifs <;> simp [reported, get_mergeProviderFields, hfields]
  · split_ifs <;> simp [reported, get_mergeProviderFields]

/-- A report's result holds the measured usage with the marker's fields over it. -/
theorem get_report (h : snapshot.report W runID = some r)
    (hkey : "provider_output_sha256" ≠ key ∧ "tool_event_count" ≠ key) :
    r.result.fields[key]? = (snapshot.markerFields W)[key]?.or (usageFields snapshot)[key]? := by
  simp only [RunSnapshot.report] at h
  unfold RunSnapshot.markerFields
  have hother {l : List String} (hl : l.contains (snapshot.normalStatus W) = true)
      (hd : ∀ x ∈ l, ["cancelled", "canceled"].contains x = false) :
      ["cancelled", "canceled"].contains (snapshot.normalStatus W) = false :=
    hd _ (List.contains_iff_mem.mp hl)
  by_cases hcompleted : completedStatuses.contains (snapshot.normalStatus W) = true
  · rw [if_pos hcompleted] at h
    obtain rfl := Option.some.inj h
    rw [hother hcompleted (by decide)]
    unfold reportCompleted
    split_ifs
    all_goals simp_all [get_completedReport, missingEvidenceReport]
  · rw [eq_false_of_ne_true hcompleted]
    split_ifs at h with hfailed hbug htimeout hcancelled <;> obtain rfl := Option.some.inj h
    · rw [hother hfailed (by decide)]
      exact get_mergeProviderFields _ _
    · rw [hother hfailed (by decide)]
      exact get_mergeProviderFields _ _
    · rw [hother htimeout (by decide)]
      exact get_mergeProviderFields _ _
    · rw [hcancelled]
      rfl

/-- What a key is charged, by what the marker has for it. -/
theorem charge_eq (h : snapshot.report W runID = some r)
    (hkey : "provider_output_sha256" ≠ key ∧ "tool_event_count" ≠ key)
    (hn : usageInt64 (usageFields snapshot) key = max 0 (i64 n)) :
    usageInt64 r.result.fields key =
      if (snapshot.markerFields W)[key]?.isSome then usageInt64 (snapshot.markerFields W) key
      else max 0 (i64 n) := by
  have hget := get_report h hkey
  cases hmarker : (snapshot.markerFields W)[key]? with
  | none =>
    rw [hmarker, Option.none_or] at hget
    simp only [← hn, usageInt64, hget, Option.isSome_none, Bool.false_eq_true, if_false]
  | some v =>
    simp [usageInt64, hget, hmarker]

theorem undisplaced_iff {fields : GoMap Value}
    (h : charge = if fields[key]?.isSome then usageInt64 fields key else max 0 (i64 n)) :
    i64 (count + charge) = count + n ↔ Undisplaced fields key count n := by
  have hle := usageInt64_le fields key
  have hnonneg := usageInt64_nonneg fields key
  unfold Undisplaced
  unfold i64 maxInt64 at *
  by_cases hmarker : fields[key]?.isSome = true
  · rw [if_pos hmarker] at h ⊢
    omega
  · rw [if_neg hmarker] at h ⊢
    omega

def Usage.booked (used u : Usage) : Usage :=
  ⟨i64 (used.tokens + u.tokens), i64 (used.tools + u.tools), i64 (used.cost + u.cost)⟩

theorem FinishResult.booked (h : FinishResult H plan p k input f (.ok b) q) :
    q.used = p.used.booked f.usage := by
  generalize hres : Except.ok b = res at h
  cases h with
  | refused | undone => cases hres
  | kept a' mid m hr hm =>
    rw [noteReason_eq, hm.rest, (repairStage_result hr).rest]
    rfl

theorem closeAttempt_booked (h : closeAttempt W plan now s a r artifacts o = (.ok (some b), s')) :
    s'.projection.used = s.projection.used.booked (resultUsage r.result) := by
  simp only [closeAttempt, Prod.mk.injEq] at h
  obtain ⟨hres, rfl⟩ := h
  unfold Executor.finishAttempt at hres ⊢
  generalize hi : ({ closingInput plan now a r artifacts with
    now := (closingInput plan now a r artifacts).at o.clock } : TransitionInput) = i at hres
  dsimp only at hres ⊢
  have hresult : i.result = r.result := by rw [← hi]; rfl
  have hkey : trimSpace i.idempotencyKey = "" := by
    rw [← hi]
    show trimSpace "" = ""
    decide
  rcases finishAttempt_cases W.toHost plan s.projection a.id i o.clock with
    ⟨e, he⟩ | ⟨c, -, hne⟩ | ⟨f, c, hf, hfinish⟩
  · simp [he, Except.map] at hres
  · exact absurd (.inl hkey) hne
  · generalize Orchestration.finishAttempt W.toHost plan s.projection a.id i o.clock = reply
      at hfinish hres
    obtain ⟨res, q⟩ := reply
    cases res with
    | error e => simp [Except.map] at hres
    | ok c' =>
      simp only at hres ⊢
      split at hres
      · cases hres
      · rw [← hresult, ← hf.usage]
        exact hfinish.booked

theorem recoverUnboundAttempt_used :
    (recoverUnboundAttempt W plan s a o).2.projection.used = s.projection.used := by
  unfold recoverUnboundAttempt
  split
  · rfl
  · split
    · rfl
    · rfl
    · split
      · rfl
      · simp only
        split
        · rfl
        · split <;> rfl

theorem usageFields_usage :
    usageInt64 (usageFields snapshot) "tokens" = max 0 (i64 snapshot.measured.tokens) ∧
      usageInt64 (usageFields snapshot) "tool_calls" = max 0 (i64 snapshot.measured.tools) ∧
      usageInt64 (usageFields snapshot) "cost_cents" = max 0 (i64 snapshot.measured.cost) := by
  have htwice (m : Int) : i64 (i64 m) = i64 m := by unfold i64; omega
  unfold usageFields RunSnapshot.measured usageInt64
  by_cases hcost : (F64.finite 0).lt snapshot.estimatedCost = true
  · simp only [hcost, GoMap.get_set, String.reduceEq, ↓reduceIte, htwice, and_self]
  · simp only [hcost, GoMap.get_set, String.reduceEq, ↓reduceIte, htwice, Bool.false_eq_true]
    exact ⟨trivial, trivial, rfl⟩

theorem observeRun_charged (h : observeRun W plan now s a o = (.ok (some b), s'))
    (hsnapshot : o.snapshot (trimSpace a.runID) = .ok snapshot) :
    Charged s.projection s'.projection snapshot.measured ↔
      LeavesUsage (snapshot.markerFields W) s.projection.used snapshot.measured := by
  simp only [observeRun, hsnapshot] at h
  split at h
  · cases h
  · rename_i r hr
    obtain ⟨htokens, htools, hcost⟩ := @usageFields_usage snapshot
    rw [Charged, closeAttempt_booked h, Usage.mk.injEq]
    exact and_congr (undisplaced_iff (charge_eq hr (by decide) htokens))
      (and_congr (undisplaced_iff (charge_eq hr (by decide) htools))
        (undisplaced_iff (charge_eq hr (by decide) hcost)))

/-- An attempt that is finished from a snapshot is charged what the snapshot measured
exactly when the merged fields of the marker repeat or lack each key of the usage and
the counters have room for it. -/
theorem measured_usage_charged
    (hfinished : reconcileAttempt W plan now s a o = (.ok (some b), s'))
    (hchild : a.childPlanID = "") (hlive : a.lease.expiresAt = 0 ∨ now < a.lease.expiresAt)
    (hsnapshot : o.snapshot (o.runOf a) = .ok snapshot) :
    Charged s.projection s'.projection snapshot.measured ↔
      LeavesUsage (snapshot.markerFields W) s.projection.used snapshot.measured := by
  have hlease : (a.lease.expiresAt != 0 && decide (a.lease.expiresAt ≤ now)) = false := by
    rcases hlive with hlive | hlive <;> simp [hlive]
  unfold reconcileAttempt at hfinished
  rw [hchild, hlease] at hfinished
  split at hfinished
  · cases hfinished
  · rename_i hrunning
    simp only [bne_self_eq_false, Bool.false_eq_true, if_false] at hfinished
    split at hfinished
    · rename_i hunbound
      -- the run was reserved and is bound first, which leaves the counters
      have hused := @recoverUnboundAttempt_used W plan s a o
      have hrun := (recoverUnboundAttempt_passes W plan s o True
        (by simpa using hrunning) hunbound).2
      generalize recoverUnboundAttempt W plan s a o = reply at *
      obtain ⟨res, bound⟩ := reply
      split at hfinished
      · cases hfinished
      · cases hfinished
      · rename_i c _ heq
        cases heq
        rw [← (hrun c rfl).2] at hsnapshot
        rw [Charged, ← hused]
        exact observeRun_charged hfinished hsnapshot
    · rename_i hbound
      rw [Observation.runOf, if_neg hbound] at hsnapshot
      exact observeRun_charged hfinished hsnapshot

/-- A completed run with one matched tool call, 30 tokens in and 12 out. -/
def meteredSnapshot (fields : String) : RunSnapshot where
  status := "completed"
  output := "ADRO_RESULT_JSON=\x7b\"outcome\":\"pass\",\"fields\":" ++ fields ++ "\x7d"
  toolEvents := [{ callID := "1", phase := "before" }, { callID := "1", phase := "after" }]
  inputTokens := 30
  outputTokens := 12

def plainSnapshot : RunSnapshot := meteredSnapshot "\x7b\"note\":1\x7d"

def reconciled (snapshot : RunSnapshot) : Except Err (Option NodeAttempt) × Session :=
  reconcileAttempt sampleWorker singlePlan 5 boundSession
    ((boundSession.projection.attempts["a"]?).getD {}) (observes snapshot)

theorem reply_of_finished {reply : Except Err (Option NodeAttempt) × Session}
    (h : reply.1.toOption.join.isSome = true) : ∃ b s', reply = (.ok (some b), s') := by
  obtain ⟨res, s'⟩ := reply
  match res, h with
  | .ok (some b), _ => exact ⟨b, s', rfl⟩

theorem plain_marker_charged :
    ∃ b s', reconciled plainSnapshot = (.ok (some b), s') ∧
      Charged boundSession.projection s'.projection plainSnapshot.measured := by
  obtain ⟨b, s', hfinished⟩ := @reply_of_finished (reconciled plainSnapshot) (by decide +kernel)
  refine ⟨b, s', hfinished, ?_⟩
  exact (measured_usage_charged hfinished (by decide +kernel) (by decide +kernel) rfl).mpr
    (by decide +kernel)

/-- A marker with a key of the usage is charged in place of what was measured. -/
theorem marker_replaces_usage :
    let snapshot := meteredSnapshot "\x7b\"tokens\":0\x7d"
    (reconciled snapshot).1.toOption.isSome = true ∧
      snapshot.measured.tokens = 42 ∧
      (reconciled snapshot).2.projection.tokenUsage = boundSession.projection.tokenUsage := by
  decide +kernel

end Adro.Orchestration
