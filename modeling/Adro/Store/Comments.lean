import Adro.Go.Basic
import Adro.Go.Map
import Adro.Lib.Runs

/-!
# Comments and their revisions

`CreateComment`, `UpdateComment` and `SetCommentTriggerOutcomes` of the control
store. The clock, new ids and the fault of persisting the state are handed in.
Requirements and bugs are read for their workspace only, and a list of revisions
that is not there is an empty one. A revision counts the entries of that list, so
it does not reach the end of its 64 bits and is a plain integer.
-/

namespace Adro.Store

open Adro.Go Adro.Runs

inductive Sentinel
  | notFound
  | conflict
  deriving DecidableEq, Repr

abbrev Error := GoError Sentinel

def failure (text : String) : Error := ⟨none, text⟩

/-- `fmt.Errorf` with the fault of persisting as its cause. -/
def unsaved (text : String) (fault : Error) : Error :=
  { fault with text := text ++ ": " ++ fault.text }

def errNotFound : Error := ⟨some .notFound, "not found"⟩

def errConflict : Error := ⟨some .conflict, "conflict"⟩

/-- The `Originator` fields of a comment, on whose authority it stands. -/
structure Originator where
  id : String := ""
  type : String := ""
  source : String := ""
  delegatedFromTaskID : String := ""
  autopilotCreatorID : String := ""
  previousID : String := ""
  deriving DecidableEq

structure TriggerOutcome where
  originatorID : String := ""
  originatorType : String := ""
  originatorSource : String := ""
  lineageHash : String := ""

structure Comment where
  id : String := ""
  workspaceID : String
  targetType : String
  targetID : String
  parentID : String := ""
  rootID : String := ""
  authorID : String
  authorType : String
  originator : Originator := {}
  lineageHash : String := ""
  content : String
  mentions : List String := []
  attachmentIDs : List String := []
  revision : Int := 0
  triggerOutcomes : List TriggerOutcome := []
  createdAt : Time := 0
  updatedAt : Time := 0

structure Revision where
  commentID : String
  revision : Int
  content : String
  mentions : List String
  attachmentIDs : List String
  triggerOutcomes : List TriggerOutcome
  editorID : String
  editorType : String
  originator : Originator
  lineageHash : String
  createdAt : Time

structure Attachment where
  workspaceID : String
  ownerType : String
  ownerID : String

/-- What `CommentLineageHash` digests. -/
structure Lineage where
  workspaceID : String
  targetType : String
  targetID : String
  commentID : String
  rootID : String
  revision : Int
  authorID : String
  authorType : String
  originator : Originator
  deriving DecidableEq

structure State where
  requirements : GoMap String
  bugs : GoMap String
  attachments : GoMap Attachment := ∅
  comments : GoMap Comment := ∅
  revisions : GoMap (List Revision) := ∅

def normalizeCommentMentions (mentions : List String) : List String :=
  mentions.foldl (fun result mention =>
    let mention := trimSpace (match mention.toList with
      | '@' :: rest => String.ofList rest
      | _ => mention)
    if result.length == 32 || mention == "" || result.contains mention then result
    else result ++ [mention]) []

namespace Comment

variable (c : Comment)

def validate : Except Error Unit := do
  ensure (!blank c.workspaceID && !blank c.targetID)
    (failure "workspace_id and target_id are required")
  ensure (c.targetType == "requirement" || c.targetType == "bug")
    (failure "target_type must be requirement or bug")
  ensure (!blank c.authorID && !blank c.content) (failure "author_id and content are required")
  ensure (c.authorType == "member" || c.authorType == "agent" || c.authorType == "system")
    (failure "author_type must be member, agent, or system")

/-- The types need no change, `Validate` has compared them as they are. -/
def normalized : Comment :=
  { c with
    content := trimSpace c.content
    parentID := trimSpace c.parentID
    authorID := trimSpace c.authorID
    targetID := trimSpace c.targetID
    workspaceID := trimSpace c.workspaceID
    mentions := normalizeCommentMentions c.mentions
    attachmentIDs := normalizeCommentMentions c.attachmentIDs }

def lineage : Lineage :=
  ⟨c.workspaceID, c.targetType, c.targetID, c.id, c.rootID, c.revision, c.authorID, c.authorType,
    c.originator⟩

def signed (digest : Lineage → String) : Comment := { c with lineageHash := digest c.lineage }

/-- `commentRevisionSnapshot`. -/
def snapshot (editorID editorType : String) : Revision :=
  ⟨c.id, c.revision, c.content, c.mentions, c.attachmentIDs, c.triggerOutcomes, trimSpace editorID,
    trimSpace editorType, c.originator, c.lineageHash, c.updatedAt⟩

def opening : Comment :=
  { c with
    rootID := c.id
    originator := if c.originator.id == "" then
        { c.originator with
          id := c.authorID, type := c.authorType, source := "authenticated_actor" }
      else c.originator }

/-- A comment under another, on the authority of that one. -/
def under (parent : Comment) : Comment :=
  { c with
    rootID := if parent.rootID == "" then parent.id else parent.rootID
    originator := if parent.originator.id == "" then
        { parent.originator with
          id := parent.authorID, type := parent.authorType, source := "legacy_parent_author" }
      else parent.originator }

def identified (newID : String) : Comment :=
  let id := if c.id == "" then newID else c.id
  let rootID := if c.id == "" && c.parentID == "" then id else c.rootID
  { c with id := id, rootID := if rootID == "" then id else rootID }

/-- The originator after an edit: an editor other than the author takes over. -/
def handedTo (editorID editorType : String) : Originator :=
  if c.authorID == editorID && c.authorType == editorType then
    if c.originator.id == "" then
      { c.originator with id := c.authorID, type := c.authorType, source := "author_edit" }
    else c.originator
  else {
    id := editorID, type := editorType, source := "admin_edit"
    previousID :=
      if blank c.originator.id then trimSpace c.authorID else trimSpace c.originator.id }

end Comment

namespace State

variable (digest : Lineage → String) (s : State) (now : Time) (fault : Option Error)

def holds (workspaceID commentID : String) (attachmentIDs : List String) : Bool :=
  attachmentIDs.all fun id => (s.attachments[id]?).any fun a =>
    a.workspaceID == workspaceID && a.ownerType == "comment" && a.ownerID == commentID

def targeted (c : Comment) : Except Error Unit :=
  match (if c.targetType == "requirement" then s.requirements else s.bugs)[c.targetID]? with
  | none => .error errNotFound
  | some workspaceID => ensure (workspaceID == c.workspaceID) errConflict

def placed (c : Comment) : Except Error Comment :=
  if c.parentID == "" then .ok c.opening
  else match s.comments[c.parentID]? with
    | none => .error errNotFound
    | some parent => do
      ensure (parent.workspaceID == c.workspaceID && parent.targetType == c.targetType &&
        parent.targetID == c.targetID) errConflict
      .ok (c.under parent)

def drafted (newID : String) (given : Comment) : Except Error Comment := do
  given.validate
  let c := given.normalized
  s.targeted c
  let c ← s.placed c
  let c := c.identified newID
  ensure (s.holds c.workspaceID c.id c.attachmentIDs) errConflict
  ensure s.comments[c.id]?.isNone errConflict
  .ok c

def write (k : String) (c : Comment) (revisions : List Revision) : State :=
  { s with comments := s.comments.insert k c, revisions := s.revisions.insert k revisions }

def createComment (newID : String) (given : Comment) : Except Error Comment × State :=
  match s.drafted newID given with
  | .error e => (.error e, s)
  | .ok c =>
    let c := { c with createdAt := now, updatedAt := now, revision := 1 }.signed digest
    let next := s.write c.id c [c.snapshot c.authorID c.authorType]
    match fault with
    | none => (.ok c, next)
    | some e => (.error (unsaved "persist comment" e), { next with
      comments := next.comments.erase c.id, revisions := next.revisions.erase c.id })

/-- The write of an edited comment: what was there comes back when it cannot be
persisted. The key is the id as the caller gave it. -/
def replace (id : String) (old c : Comment) (edit : List Revision → List Revision) (text : String) :
    Except Error Comment × State :=
  let revisions := s.revisions[id]?.getD []
  let next := s.write id c (edit revisions)
  match fault with
  | none => (.ok c, next)
  | some e => (.error (unsaved text e), next.write id old revisions)

def updateComment (id : String) (expected : Int) (content : String) (mentions : List String)
    (attachmentIDs : Option (List String)) (editorID editorType : String) :
    Except Error Comment × State :=
  if blank content then (.error (failure "comment content is required"), s)
  else match s.comments[trimSpace id]? with
    | none => (.error errNotFound, s)
    | some old =>
      let attached := (attachmentIDs.map normalizeCommentMentions).getD old.attachmentIDs
      if expected ≤ 0 || old.revision != expected ||
        attachmentIDs.isSome && !s.holds old.workspaceID old.id attached then
          (.error errConflict, s)
      else
        let editorID := if blank editorID then "system" else editorID
        let editorType := if blank editorType then "system" else editorType
        let c := { old with
          content := trimSpace content, mentions := normalizeCommentMentions mentions
          attachmentIDs := attached, originator := old.handedTo editorID editorType
          revision := old.revision + 1, updatedAt := now }.signed digest
        s.replace fault id old c (· ++ [c.snapshot editorID editorType]) "persist comment edit"

def setCommentTriggerOutcomes (id : String) (revision : Int) (outcomes : List TriggerOutcome) :
    Except Error Comment × State :=
  match s.comments[trimSpace id]? with
  | none => (.error errNotFound, s)
  | some old =>
    let filled := outcomes.map fun o => if o.originatorID == "" then
        ⟨old.originator.id, old.originator.type, old.originator.source, old.lineageHash⟩ else o
    if revision != old.revision ||
      filled.any (fun o => o.lineageHash != "" && o.lineageHash != old.lineageHash) then
      (.error errConflict, s)
    else s.replace fault id old { old with triggerOutcomes := filled, updatedAt := now }
      (·.map fun r => if r.revision == revision then { r with triggerOutcomes := outcomes } else r)
      "persist comment trigger outcomes"

end State

inductive Call
  | create (newID : String) (given : Comment)
  | update (id : String) (expected : Int) (content : String) (mentions : List String)
    (attachmentIDs : Option (List String)) (editorID editorType : String)
  | setOutcomes (id : String) (revision : Int) (outcomes : List TriggerOutcome)

structure Request where
  call : Call
  now : Time
  fault : Option Error := none

def State.perform (digest : Lineage → String) (s : State) (q : Request) :
    Except Error Comment × State :=
  match q.call with
  | .create newID given => s.createComment digest q.now q.fault newID given
  | .update id expected content mentions attachmentIDs editorID editorType =>
    s.updateComment digest q.now q.fault id expected content mentions attachmentIDs editorID
      editorType
  | .setOutcomes id revision outcomes =>
    s.setCommentTriggerOutcomes q.now q.fault id revision outcomes

variable {digest : Lineage → String} {s next : State} {k id text : String} {c old parent : Comment}
  {rs : List Revision} {q : Request}

/-- The revisions from the first on, the last one being the comment as it is. -/
structure Told (digest : Lineage → String) (c : Comment) (rs : List Revision) : Prop where
  numbered : rs.map (·.revision) = (List.range rs.length).map fun i => (i : Int) + 1
  count : c.revision = rs.length
  last : ∃ r, rs.getLast? = some r ∧ r.content = c.content ∧ r.mentions = c.mentions ∧
    r.attachmentIDs = c.attachmentIDs ∧ r.originator = c.originator
  signed : c.lineageHash = digest c.lineage

def Comment.place (c : Comment) : List String :=
  [c.id, c.workspaceID, c.targetType, c.targetID, c.parentID, c.rootID]

/-- A comment starts a thread, or is a reply in the thread of its parent. -/
structure Threaded (comments : GoMap Comment) (c : Comment) : Prop where
  rooted : c.rootID ≠ ""
  first : c.parentID = "" → c.rootID = c.id
  reply : c.parentID ≠ "" → ∃ parent, comments[c.parentID]? = some parent ∧
    c.workspaceID = parent.workspaceID ∧ c.targetType = parent.targetType ∧
    c.targetID = parent.targetID ∧ c.rootID = parent.rootID

structure Sound (digest : Lineage → String) (s : State) : Prop where
  keyed : ∀ (k : String) c, s.comments[k]? = some c → c.id = k
  told : ∀ (k : String) c, s.comments[k]? = some c → ∃ rs, s.revisions[k]? = some rs ∧
    Told digest c rs
  threaded : ∀ (k : String) c, s.comments[k]? = some c → Threaded s.comments c
  only : ∀ k : String, s.comments[k]? = none → s.revisions[k]? = none

/-- What a call leaves: what was there, or one comment written, with the edit it
is the answer to. -/
inductive Outcome (digest : Lineage → String) (s : State) : State → List (String × Int) → Prop
  | same : Outcome digest s s []
  | written {k c rs edits} (keyed : c.id = k) (told : Told digest c rs)
    (threaded : Threaded s.comments c)
    (stays : ∀ old, s.comments[k]? = some old → c.place = old.place ∧ old.revision ≤ c.revision)
    (edited : edits = [] ∨ ∃ old, s.comments[k]? = some old ∧ edits = [(k, old.revision)] ∧
      old.revision < c.revision) : Outcome digest s (s.write k c rs) edits

theorem Threaded.write (h : Threaded comments c)
    (hd : ∀ old, comments[k]? = some old → d.place = old.place) :
    Threaded (comments.insert k d) c := by
  refine ⟨h.rooted, h.first, fun hne => ?_⟩
  obtain ⟨parent, hparent, hsame⟩ := h.reply hne
  rw [GoMap.get_set]
  split
  · rename_i hk
    have hplace := hd parent (hk ▸ hparent)
    simp only [Comment.place, List.cons.injEq] at hplace
    obtain ⟨-, hw, ht, hi, -, hr, -⟩ := hplace
    exact ⟨d, rfl, by rw [hw, ht, hi, hr]; exact hsame⟩
  · exact ⟨parent, hparent, hsame⟩

section
variable (h : Sound digest s)
include h

theorem Sound.outcome (ho : Outcome digest s next edits) : Sound digest next := by
  cases ho with
  | same => exact h
  | @written k c rs _ keyed told threaded stays edited =>
    have hplace := fun old hold => (stays old hold).1
    refine ⟨GoMap.forall_set h.keyed keyed,
      GoMap.forall_overwrite (fun j d hd hne => ?_) ⟨rs, ?_, told⟩,
      GoMap.forall_set (fun j d hd => (h.threaded j d hd).write hplace) (threaded.write hplace),
      fun j hj => ?_⟩
    · obtain ⟨rs', hrs', htold⟩ := h.told j d hd
      exact ⟨rs', by rw [State.write, GoMap.get_set_ne hne.symm]; exact hrs', htold⟩
    · rw [State.write, GoMap.get_set, if_pos rfl]
    · simp only [State.write, GoMap.get_set] at hj ⊢
      split at hj
      · cases hj
      · rw [if_neg ‹_›]
        exact h.only j hj

theorem placed_threaded (hp : s.placed given = .ok c)
    (hne : id ≠ "") : Threaded s.comments (c.identified id) := by
  unfold State.placed at hp
  split at hp
  case isTrue hroot =>
    obtain rfl := Except.ok.inj hp
    have hroot : given.parentID = "" := by simpa using hroot
    refine ⟨?_, fun _ => ?_, fun hreply => absurd hroot hreply⟩ <;>
      by_cases hid : given.id = "" <;> simp [Comment.identified, Comment.opening, hroot, hid, hne]
  case isFalse hreply =>
    have hreply : given.parentID ≠ "" := by simpa using hreply
    split at hp
    · cases hp
    · rename_i parent hparent
      obtain ⟨hsame, hp⟩ := then_ok.mp hp
      obtain rfl := Except.ok.inj hp
      have hrooted := (h.threaded _ _ hparent).rooted
      have hsame := ensure_ok.mp hsame
      simp only [Bool.and_eq_true, beq_iff_eq] at hsame
      have hroot : ((given.under parent).identified id).rootID = parent.rootID := by
        simp [Comment.identified, Comment.under, hreply, hrooted]
      exact ⟨hroot ▸ hrooted, fun hno => absurd hno hreply, fun _ =>
        ⟨parent, hparent, hsame.1.1.symm, hsame.1.2.symm, hsame.2.symm, hroot⟩⟩

theorem createComment_outcome (hne : newID ≠ "") :
    Outcome digest s (s.createComment digest now fault newID given).2 [] := by
  unfold State.createComment
  cases hd : s.drafted newID given with
  | error e => exact .same
  | ok c =>
    obtain ⟨-, -, hd⟩ := then_ok.mp hd |>.imp id then_ok.mp
    obtain ⟨placed, hplaced, hd⟩ := bind_ok.mp hd
    obtain ⟨-, hfree, hd⟩ := then_ok.mp hd |>.imp id then_ok.mp
    obtain rfl := Except.ok.inj hd
    have hthreaded := placed_threaded h hplaced hne
    generalize placed.identified newID = c at *
    have hnone : s.comments[c.id]? = none := by simpa [ensure_ok] using hfree
    simp only
    split
    · refine .written rfl ⟨rfl, rfl, ⟨_, rfl, rfl, rfl, rfl, rfl⟩, rfl⟩ ⟨hthreaded.rooted,
        hthreaded.first, hthreaded.reply⟩ (fun old hold => ?_) (.inl rfl)
      exact absurd (hnone.symm.trans hold) (by simp)
    · simp only [State.write, GoMap.erase_set, Comment.signed]
      rw [GoMap.erase_of_none hnone, GoMap.erase_of_none (h.only _ hnone)]
      exact .same

theorem replace_outcome (hold : s.comments[id]? = some old) (hplace : c.place = old.place)
    (hle : old.revision ≤ c.revision) (htold : ∀ rs, Told digest old rs → Told digest c (edit rs))
    (hedits : edits = [] ∨ edits = [(id, old.revision)] ∧ old.revision < c.revision) :
    Outcome digest s (s.replace fault id old c edit text).2
      (if (s.replace fault id old c edit text).1.isOk then edits else []) := by
  obtain ⟨rs, hrs, ht⟩ := h.told id old hold
  have hid : c.id = id := (List.cons.inj hplace).1.trans (h.keyed id old hold)
  have hthreaded : Threaded s.comments c := by
    have ho := h.threaded id old hold
    simp only [Comment.place, List.cons.injEq] at hplace
    obtain ⟨hi, hw, ht, hg, hp, hr, -⟩ := hplace
    exact ⟨hr ▸ ho.rooted, hp ▸ hr ▸ hi ▸ ho.first, by rw [hp, hw, ht, hg, hr]; exact ho.reply⟩
  unfold State.replace
  rw [hrs]
  cases fault with
  | none =>
    refine .written hid (htold rs ht) hthreaded (fun o ho => ?_) ?_
    · cases hold.symm.trans ho
      exact ⟨hplace, hle⟩
    · exact hedits.imp_right fun he => ⟨old, hold, he⟩
  | some e =>
    simp only [State.write, GoMap.set_set, Option.getD_some]
    rw [GoMap.set_get_self hold, GoMap.set_get_self hrs]
    exact .same

end

/-- The edits that are answered by an updated comment. -/
def Request.edits (q : Request) : List (String × Int) :=
  match q.call with
  | .update id expected .. => [(id, expected)]
  | _ => []

/-- New ids are not empty, and an id to look up is given as it is stored. -/
def Request.tidy (q : Request) : Bool :=
  match q.call with
  | .create newID _ => newID != ""
  | .update id .. | .setOutcomes id .. => trimSpace id == id

theorem Told.edited (h : Told digest old rs) (hc : c.revision = old.revision + 1)
    (hs : c.lineageHash = digest c.lineage) (editorID editorType : String) :
    Told digest c (rs ++ [c.snapshot editorID editorType]) where
  numbered := by simp [List.range_succ, h.numbered, Comment.snapshot, hc, h.count]
  count := by simp [hc, h.count]
  last := ⟨c.snapshot editorID editorType, by simp, rfl, rfl, rfl, rfl⟩
  signed := hs

theorem Told.noted (h : Told digest old rs) (hf : ∀ r, ∃ o, f r = { r with
    triggerOutcomes := o }) (hc : { old with
      triggerOutcomes := c.triggerOutcomes, updatedAt := c.updatedAt } = c) : Told digest c
        (rs.map f) where
  numbered := by
    rw [List.map_map, List.length_map, ← h.numbered]
    refine List.map_congr_left fun r _ => ?_
    obtain ⟨o, ho⟩ := hf r
    simp [ho]
  count := by rw [← hc, List.length_map]; exact h.count
  last := by
    obtain ⟨r, hr, hlast⟩ := h.last
    obtain ⟨o, ho⟩ := hf r
    refine ⟨f r, by rw [List.getLast?_map, hr]; rfl, ?_⟩
    rw [ho, ← hc]
    exact hlast
  signed := by rw [← hc]; exact h.signed

theorem perform_outcome (h : Sound digest s) (hq : q.tidy = true) :
    Outcome digest s (s.perform digest q).2
      (if (s.perform digest q).1.isOk then q.edits else []) := by
  obtain ⟨call, now, fault⟩ := q
  cases call with
  | create newID given =>
    have hne : newID ≠ "" := by simpa [Request.tidy] using hq
    simp only [Request.edits, ite_self]
    exact createComment_outcome h hne
  | update id expected content mentions attachmentIDs editorID editorType =>
    have hid : trimSpace id = id := by simpa [Request.tidy] using hq
    simp only [State.perform, State.updateComment, hid]
    split
    · exact .same
    · split
      · exact .same
      · rename_i old hold
        split
        · exact .same
        · rename_i hexpected
          obtain ⟨⟨-, rfl⟩, -⟩ : (¬ expected ≤ 0 ∧ old.revision = expected) ∧ _ := by
            simpa using hexpected
          exact replace_outcome h hold rfl (Int.le_add_one le_rfl)
            (fun rs ht => ht.edited rfl rfl _ _) (.inr ⟨rfl, Int.lt_succ _⟩)
  | setOutcomes id revision outcomes =>
    have hid : trimSpace id = id := by simpa [Request.tidy] using hq
    simp only [State.perform, State.setCommentTriggerOutcomes, hid]
    split
    · exact .same
    · rename_i old hold
      split
      · exact .same
      · refine replace_outcome h hold rfl le_rfl (fun rs ht => ht.noted (fun r => ?_) rfl)
          (.inl rfl)
        split
        · exact ⟨_, rfl⟩
        · exact ⟨_, rfl⟩

/-- The state with the edits that have been answered. -/
structure Desk where
  state : State
  edits : List (String × Int)

def step (digest : Lineage → String) (d : Desk) (q : Request) : Desk :=
  ⟨(d.state.perform digest q).2,
    d.edits ++ if (d.state.perform digest q).1.isOk then q.edits else []⟩

/-- No edit is answered twice, and each one was of an earlier revision. -/
structure Fair (d : Desk) : Prop where
  once : d.edits.Nodup
  past : ∀ x ∈ d.edits, ∃ c, d.state.comments[x.1]? = some c ∧ x.2 < c.revision

theorem Fair.outcome (h : Fair d)
    (ho : Outcome digest d.state next edits) : Fair ⟨next, d.edits ++ edits⟩ := by
  cases ho with
  | same => simpa using h
  | @written k c rs _ keyed told threaded stays edited =>
    have hpast : ∀ x ∈ d.edits, ∃ c', (d.state.write k c rs).comments[x.1]? = some c' ∧
        x.2 < c'.revision := by
      intro x hx
      obtain ⟨old, hold, hlt⟩ := h.past x hx
      rw [State.write, GoMap.get_set]
      split
      · rename_i hk
        exact ⟨c, rfl, hlt.trans_le (stays old (hk ▸ hold)).2⟩
      · exact ⟨old, hold, hlt⟩
    rcases edited with rfl | ⟨old, hold, rfl, hlt⟩
    · exact ⟨by simpa using h.once, by simpa using hpast⟩
    · refine ⟨List.nodup_append.2 ⟨h.once, List.nodup_singleton _, ?_⟩, fun x hx => ?_⟩
      · rintro x hx y hy rfl
        obtain rfl := List.mem_singleton.1 hy
        obtain ⟨old', hold', hless⟩ := h.past _ hx
        cases hold.symm.trans hold'
        exact absurd hless (lt_irrefl _)
      · rcases List.mem_append.1 hx with hx | hx
        · exact hpast x hx
        · obtain rfl := List.mem_singleton.1 hx
          exact ⟨c, by rw [State.write, GoMap.get_set, if_pos rfl], hlt⟩

/-- Every comment is stored under its id with all its revisions, signed and in its
thread, and of the edits of one revision at most one is answered. -/
theorem comments_keep_history (s : State) (hempty : s.comments = ∅ ∧ s.revisions = ∅)
    (run : List Request)
    (hrun : Meets (step digest) (fun _ q => q.tidy = true) ⟨s, []⟩ run) :
    Sound digest (exec (step digest) ⟨s, []⟩ run).state ∧
      (exec (step digest) ⟨s, []⟩ run).edits.Nodup := by
  obtain ⟨hs, hf⟩ := invariant (I := fun d => Sound digest d.state ∧ Fair d)
    ⟨⟨by simp [hempty.1], by simp [hempty.1], by simp [hempty.1], by simp [hempty.2]⟩,
      ⟨List.nodup_nil, by simp⟩⟩
    (fun d q h hq => ⟨h.1.outcome (perform_outcome h.1 hq),
      h.2.outcome (perform_outcome h.1 hq)⟩) hrun
  exact ⟨hs, hf.once⟩

def sampleState : State := { requirements := (∅ : GoMap String).insert "r" "w", bugs := ∅ }

def sampleComment : Comment where
  id := "c"
  workspaceID := "w"
  targetType := "requirement"
  targetID := "r"
  authorID := "a"
  authorType := "member"
  content := "text"

def createCall : Request := ⟨.create "n" sampleComment, 1, none⟩

def updateCall (id : String) : Request := ⟨.update id 1 "new" [] none "a" "member", 2, none⟩

/-- Of two edits of the first revision one is answered. -/
theorem second_edit_refused :
    let run := [createCall, updateCall "c", updateCall "c"]
    let d := exec (step Lineage.commentID) ⟨sampleState, []⟩ run
    d.edits = [("c", 1)] ∧ Sound Lineage.commentID d.state ∧ d.edits.Nodup :=
  ⟨by decide +kernel,
    comments_keep_history sampleState ⟨rfl, rfl⟩ [createCall, updateCall "c", updateCall "c"]
      (by decide +kernel)⟩

/-- An id is looked up without the blanks around it and written with them. -/
theorem padded_edit_stored_apart :
    let d := exec (step Lineage.commentID) ⟨sampleState, []⟩
      [createCall, updateCall " c", updateCall " c"]
    (d.state.comments[" c"]?).map (·.id) = some "c" ∧
      (d.state.comments["c"]?).map (·.revision) = some 1 ∧ d.edits = [(" c", 1), (" c", 1)] := by
  decide +kernel

end Adro.Store
