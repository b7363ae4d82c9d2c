import BpmnLite.Store.Fencing

/-!
# One commit per revision

The revision of an instance is checked by every commit and moved by it, so that no two commits of an
instance create the same revision, whatever leases expire or are granted again in between. Where
children get ids of their own, the journal of an instance counts its revisions without a gap and each
record carries the state hash of the one before, also where commits stop half-way: journal and
snapshot are written after everything that can stop a commit, and no claim is granted on a revision
that has no record. Where no commit stops half-way the count starts at 0 and the stored revision is
that of the last record.
-/

namespace BpmnLite.Store

open Maps Abort

variable {operation : Operation} {s' : Store} {snapshot inst : ProcessInstance} {x : Uuid}
  {child : ChildStart} {reply : Reply} {c : Claim} {record last : JournalRecord}
  {envelope : SnapshotEnvelope}

section Runs

variable (H : StoreHost)

/-- The claim of a commit was granted in an earlier turn or starts an instance. -/
def Operation.Owned (seen : List Turn) : Operation → Prop
  | .commit c _ _ _ => (∃ turn ∈ seen, turn.reply = .granted c) ∨
      c.expectedRevision = 0 ∧ c.fence = 0
  | _ => True

/-- Calls whose commits use claims granted before. -/
inductive OwnedRun : List Operation → Prop
  | nil : OwnedRun []
  | step {operations : List Operation} {operation : Operation} (run : OwnedRun operations)
      (owned : operation.Owned (turns H operations {})) : OwnedRun (operations ++ [operation])

/-- The revision a turn has committed for the instance. -/
def Turn.committedOn (x : Uuid) (turn : Turn) : Option ℕ :=
  match turn.operation, turn.reply with
  | .commit claim .., .committed revision => if claim.instanceId = x then some revision else none
  | _, _ => none

variable {H} {s : Store}

theorem after_concat (operations : List Operation) (operation : Operation) :
    after H (operations ++ [operation]) s = ((after H operations s).perform H operation).2 :=
  List.foldl_concat ..

theorem turns_concat (operations : List Operation) (operation : Operation) :
    turns H (operations ++ [operation]) s = turns H operations s ++
      [⟨after H operations s, operation, ((after H operations s).perform H operation).1⟩] := by
  induction operations generalizing s with
  | nil => rfl
  | cons first rest ih => simp only [List.cons_append, turns, ih, after, List.foldl_cons]

end Runs

section Written

variable (H : StoreHost) (now : Timestamp) (activationId : Uuid) (claim : Claim) (t : Transition)
  (s : Store)

/-- The rows that tell the history of instances. -/
def chronicle (s : Store) :
    BTreeMap Uuid ProcessInstance × BTreeMap Uuid ℕ × BTreeMap Uuid SnapshotEnvelope ×
      BTreeMap Uuid (List JournalRecord) :=
  (s.instances, s.revisions, s.snapshots, s.journals)

theorem childrenStaged_chronicle : (childrenStaged H claim t s).chronicle =
    (s.instances.insert claim.instanceId (committedInstance H claim t s), s.revisions, s.snapshots,
      s.journals) := by
  have hstages := congrArg chronicle (childrenStaged_exceptRecords H claim t s)
  have hcleaned : (cleanUp claim t (jobsWritten H claim t s)).chronicle =
      (jobsWritten H claim t s).chronicle := by
    unfold cleanUp
    split_ifs <;> rfl
  have hjobs := congrArg chronicle (jobsWritten_exceptJobs H claim t s)
  exact hstages.trans (hcleaned.trans hjobs)

theorem finished_chronicle (start : Bool) (snapshot : ProcessInstance) :
    (finished H now activationId claim t start snapshot s).chronicle =
      (s.instances, s.revisions.insert claim.instanceId (newRevision claim start),
        s.snapshots.insert claim.instanceId
          ((writeRevision claim t start s).envelope claim snapshot (newRevision claim start)),
        s.journals.insert claim.instanceId (s.journals.getD claim.instanceId [] ++
          [commitRecord H claim t start snapshot (writeRevision claim t start s)])) := by
  have hevents := appendEvents_exceptEvents claim.instanceId t.events s
  have hinstances : (writeRevision claim t start s).instances = s.instances :=
    (congrArg Store.instances hevents :)
  have hrevisions : (writeRevision claim t start s).revisions =
      s.revisions.insert claim.instanceId (newRevision claim start) :=
    (congrArg (fun s => s.revisions.insert claim.instanceId (newRevision claim start)) hevents :)
  have hsnapshots : (writeRevision claim t start s).snapshots = s.snapshots :=
    (congrArg Store.snapshots hevents :)
  have hjournals : (writeRevision claim t start s).journals = s.journals :=
    (congrArg Store.journals hevents :)
  refine (congrArg chronicle (settleLease_exceptLeases ..)).trans ?_
  simp only [chronicle, exceptLeases, appendJournal, hinstances, hrevisions, hsnapshots, hjournals]

/-- What the store knows of one instance. -/
structure History where
  present : Bool
  revision : ℕ
  snapshot : Option SnapshotEnvelope
  journal : List JournalRecord

def history (s : Store) (x : Uuid) : History where
  present := decide (x ∈ s.instances)
  revision := s.revision x
  snapshot := s.snapshots[x]?
  journal := s.journals.getD x []

theorem history_congr {s : Store} (h : s.chronicle = s'.chronicle) (x : Uuid) :
    s.history x = s'.history x := by
  simp only [chronicle, Prod.mk.injEq] at h
  obtain ⟨hinstances, hrevisions, hsnapshots, hjournals⟩ := h
  simp only [history, Store.revision, hinstances, hrevisions, hsnapshots, hjournals]

theorem childrenStaged_history (x : Uuid) : (childrenStaged H claim t s).history x =
    if claim.instanceId = x then { s.history x with present := true } else s.history x := by
  have hchronicle := childrenStaged_chronicle H claim t s
  have hhistory : _ = history { s with
      instances := s.instances.insert claim.instanceId (committedInstance H claim t s) } x :=
    history_congr hchronicle x
  rw [hhistory]
  by_cases hx : claim.instanceId = x
  · simp [history, hx, Store.revision]
  · simp [history, hx, Store.revision]

theorem childWritten_history (child : ChildStart) (x : Uuid) :
    (childWritten H child s).history x = if child.inst.instanceId = x then
        ⟨true, s.revision x, some (childEnvelope child),
          (s.history x).journal ++ [childRecord H child]⟩
      else s.history x := by
  have hrevision : (childWritten H child s).revision x = s.revision x :=
    writeChildRows_revision child s x
  have hsnapshots : (childWritten H child s).snapshots =
      s.snapshots.insert child.inst.instanceId (childEnvelope child) := rfl
  have hjournals : (childWritten H child s).journals = s.journals.insert child.inst.instanceId
      (s.journals.getD child.inst.instanceId [] ++ [childRecord H child]) := rfl
  have hinstances : (childWritten H child s).instances =
      s.instances.insert child.inst.instanceId child.inst := rfl
  simp only [history, hrevision, hsnapshots, hjournals, hinstances]
  by_cases hx : child.inst.instanceId = x
  · subst hx
    simp
  · simp [hx, Std.ExtTreeMap.getD_insert, getElem?_insert]

variable (children : List ChildStart)

theorem children_history_present (h : (s.history x).present = true) :
    ((children.foldl (fun s child => childWritten H child s) s).history x).present = true := by
  induction children generalizing s with
  | nil => exact h
  | cons child rest ih =>
    refine ih (childWritten H child s) ?_
    rw [childWritten_history]
    split
    · rfl
    · exact h

theorem finished_history (start : Bool) (snapshot : ProcessInstance) (x : Uuid) :
    (finished H now activationId claim t start snapshot s).history x =
      if claim.instanceId = x then
        ⟨(s.history x).present, newRevision claim start,
          some ((writeRevision claim t start s).envelope claim snapshot (newRevision claim start)),
          (s.history x).journal ++
            [commitRecord H claim t start snapshot (writeRevision claim t start s)]⟩
      else s.history x := by
  have hchronicle := finished_chronicle H now activationId claim t s start snapshot
  have hhistory : _ = history { s with
      revisions := s.revisions.insert claim.instanceId (newRevision claim start)
      snapshots := s.snapshots.insert claim.instanceId
        ((writeRevision claim t start s).envelope claim snapshot (newRevision claim start))
      journals := s.journals.insert claim.instanceId (s.journals.getD claim.instanceId [] ++
        [commitRecord H claim t start snapshot (writeRevision claim t start s)]) } x :=
    history_congr hchronicle x
  rw [hhistory]
  by_cases hx : claim.instanceId = x
  · subst hx
    simp [history, Store.revision]
  · simp [history, hx, Store.revision, getElem?_insert, Std.ExtTreeMap.getD_insert]

theorem committed_history_self :
    (committed H now activationId claim t s).history claim.instanceId =
      ⟨true, newRevision claim (s.isStart claim),
        some ((writeRevision claim t (s.isStart claim) (rowsWritten H claim t s)).envelope claim
          (committedInstance H claim t s) (newRevision claim (s.isStart claim))),
        ((rowsWritten H claim t s).history claim.instanceId).journal ++
          [commitRecord H claim t (s.isStart claim) (committedInstance H claim t s)
            (writeRevision claim t (s.isStart claim) (rowsWritten H claim t s))]⟩ := by
  have hstaged : ((childrenStaged H claim t s).history claim.instanceId).present = true := by
    rw [childrenStaged_history, if_pos rfl]
  have hpresent := children_history_present H (childrenStaged H claim t s) t.childStarts hstaged
  unfold committed
  rw [finished_history, if_pos rfl]
  unfold rowsWritten
  rw [hpresent]

end Written

section Distinct

variable {H : StoreHost} {s : Store} {seen : List Turn}

/-- Revisions stay in range, and every revision committed so far is at most the stored one. -/
structure Numbered (seen : List Turn) (s : Store) : Prop where
  granted : ∀ turn ∈ seen, ∀ c, turn.reply = .granted c → c.expectedRevision ≤ 2 ^ 63
  snapshots : ∀ (x : Uuid) (envelope : SnapshotEnvelope), s.snapshots[x]? = some envelope →
    envelope.revision ≤ 2 ^ 63
  committed : ∀ x, ∀ revision ∈ seen.filterMap (Turn.committedOn x),
    x ∈ s.instances ∧ revision ≤ s.revision x
  distinct : ∀ x, (seen.filterMap (Turn.committedOn x)).Nodup

theorem Numbered.step (h : Numbered seen s) {turn : Turn}
    (hgranted : ∀ c, turn.reply = .granted c → c.expectedRevision ≤ 2 ^ 63)
    (hsnapshots : ∀ (x : Uuid) (envelope : SnapshotEnvelope), s'.snapshots[x]? = some envelope →
      s.snapshots[x]? = some envelope ∨ envelope.revision ≤ 2 ^ 63)
    (hrises : ∀ x ∈ s.instances, x ∈ s'.instances ∧ s.revision x ≤ s'.revision x)
    (hnew : ∀ x r, turn.committedOn x = some r → (x ∈ s'.instances ∧ r ≤ s'.revision x) ∧
      ∀ r' ∈ seen.filterMap (Turn.committedOn x), r' ≠ r) :
    Numbered (seen ++ [turn]) s' := by
  refine ⟨fun other hother c hc => ?_, fun x envelope hx => ?_, fun x r hr => ?_, fun x => ?_⟩
  · rcases List.mem_append.mp hother with hearlier | hlast
    · exact h.granted other hearlier c hc
    · obtain rfl := List.mem_singleton.mp hlast
      exact hgranted c hc
  · rcases hsnapshots x envelope hx with hearlier | hle
    · exact h.snapshots x envelope hearlier
    · exact hle
  · rw [List.filterMap_append, List.mem_append] at hr
    rcases hr with hearlier | hlast
    · obtain ⟨hpresent, hle⟩ := h.committed x r hearlier
      exact ⟨(hrises x hpresent).1, hle.trans (hrises x hpresent).2⟩
    · obtain ⟨_, hturn, hr⟩ := List.mem_filterMap.mp hlast
      obtain rfl := List.mem_singleton.mp hturn
      exact (hnew x r hr).1
  · rw [List.filterMap_append, List.nodup_append]
    refine ⟨h.distinct x, ?_, fun r hr r' hr' => ?_⟩
    · rw [List.filterMap_cons, List.filterMap_nil]
      split <;> simp
    · obtain ⟨_, hturn, hlast⟩ := List.mem_filterMap.mp hr'
      obtain rfl := List.mem_singleton.mp hturn
      exact (hnew x r' hlast).2 r hr

theorem Numbered.quiet (h : Numbered seen s)
    (hinstances : ∀ x : Uuid, x ∈ s.instances → x ∈ s'.instances)
    (hsnapshots : s'.snapshots = s.snapshots) (hrevisions : s'.revisions = s.revisions)
    (hgranted : ∀ c, reply = .granted c → c.expectedRevision ≤ 2 ^ 63)
    (hreply : ∀ revision, reply ≠ .committed revision) :
    Numbered (seen ++ [⟨s, operation, reply⟩]) s' := by
  refine h.step hgranted (fun x envelope hx => .inl (hsnapshots ▸ hx)) (fun x hx => ?_) fun x r hr => ?_
  · refine ⟨hinstances x hx, ?_⟩
    rw [revision, revision, hrevisions]
  · unfold Turn.committedOn at hr
    split at hr
    · rename_i revision _ hcommitted
      exact absurd hcommitted (hreply revision)
    · simp at hr

theorem checkIntegrity_revision {tenantId : String}
    (h : s.checkIntegrity H tenantId x inst = .ok ()) :
    (∃ envelope, s.snapshots[x]? = some envelope ∧ envelope.revision = s.revision x) ∧
      s.revision x ∈ (s.history x).journal.map (·.newRevision) := by
  unfold checkIntegrity at h
  split at h
  · simp at h
  · simp at h
  · rename_i envelope journal henvelope hjournal
    rw [Maps.when_eq_ok] at h
    refine ⟨⟨envelope, henvelope, ?_⟩, List.mem_map.mpr ⟨journal, List.mem_of_getLast? hjournal, ?_⟩⟩
    · by_contra hdiffers
      simp [hdiffers] at h
    · by_contra hdiffers
      simp [hdiffers] at h

theorem committed_row {claim : Claim} {t : Transition} {now : Timestamp} {activationId : Uuid}
    {revision : ℕ} (h : commitTransition H now activationId claim t s = .ok revision s') :
    s'.revision claim.instanceId = revision ∧ claim.instanceId ∈ s'.instances := by
  obtain ⟨-, rfl, rfl⟩ := (commitTransition_eq_ok H now activationId claim t s).mp h
  have hhistory := committed_history_self H now activationId claim t (pendingWritten claim t s)
  exact ⟨congrArg History.revision hhistory,
    of_decide_eq_true (congrArg History.present hhistory)⟩

theorem newRevision_of_current (hcurrent : s.IsCurrent c) (hbound : c.expectedRevision ≤ 2 ^ 63) :
    c.instanceId ∉ s.instances ∧ newRevision c (s.isStart c) = 0 ∨
      c.instanceId ∈ s.instances ∧
        newRevision c (s.isStart c) = s.revision c.instanceId + 1 := by
  rcases hcurrent with hstart | ⟨row, hrow, -, -, hrevision⟩
  · refine .inl ⟨?_, by simp [newRevision, hstart]⟩
    simp only [isStart, Bool.and_eq_true, decide_eq_true_eq] at hstart
    exact hstart.1.1
  · have hpresent : c.instanceId ∈ s.instances := by
      rw [Std.ExtTreeMap.mem_iff_isSome_getElem?, hrow]
      rfl
    have hstart : s.isStart c = false := by simp [isStart, hpresent]
    refine .inr ⟨hpresent, ?_⟩
    rw [hstart, newRevision, if_neg (by simp), hrevision]
    omega

theorem perform_commit_revision (c : Claim) (t : Transition) (now : Timestamp) (activationId x : Uuid) :
    (s.perform H (.commit c t now activationId)).2.revision x = s.revision x ∨
      x = c.instanceId ∧ s.IsCurrent c ∧ x ∈ (s.perform H (.commit c t now activationId)).2.instances ∧
        (s.perform H (.commit c t now activationId)).2.revision x = newRevision c (s.isStart c) := by
  rw [perform_commit_store]
  rcases commit_lineage H now activationId c t s with hsame | ⟨hadmits, htouches, hpresent⟩
  · have hrevisions := congrArg (fun rows => rows.2.2.1.getD x 0) hsame
    exact .inl hrevisions
  · rcases htouches.revisions x with hkept | ⟨hx, hmoved⟩
    · exact .inl hkept
    · exact .inr ⟨hx, hadmits.current, hx ▸ hpresent, hmoved⟩

theorem committedOn_eq_some {turn : Turn} {r : ℕ} (h : turn.committedOn x = some r) :
    ∃ c t now activationId, turn.operation = .commit c t now activationId ∧ c.instanceId = x ∧
      turn.reply = .committed r := by
  unfold Turn.committedOn at h
  split at h
  · rename_i c t now activationId revision hoperation hreply
    split at h
    · rename_i hx
      obtain rfl := Option.some.inj h
      exact ⟨c, t, now, activationId, hoperation, hx, hreply⟩
    · simp at h
  · simp at h

theorem Numbered.commit {t : Transition} {now : Timestamp} {activationId : Uuid}
    (h : Numbered seen s) (howned : (Operation.commit c t now activationId).Owned seen) :
    let operation := Operation.commit c t now activationId
    Numbered (seen ++ [⟨s, operation, (s.perform H operation).1⟩]) (s.perform H operation).2 := by
  intro operation
  have hbound : c.expectedRevision ≤ 2 ^ 63 := by
    rcases howned with ⟨turn, hturn, hgranted⟩ | ⟨hzero, -⟩
    · exact h.granted turn hturn c hgranted
    · omega
  have htouches : Touches c (s.isStart c) s (s.perform H operation).2 :=
    perform_touches rfl
  have hmoves := perform_commit_revision (H := H) (s := s) c t now activationId
  -- Where the instance is there already, its revision does not fall.
  have hrises : ∀ x ∈ s.instances, s.revision x ≤ (s.perform H operation).2.revision x := by
    intro x hx
    rcases hmoves x with hkept | ⟨rfl, hcurrent, -, hmoved⟩
    · exact hkept.ge
    · rcases newRevision_of_current hcurrent hbound with ⟨habsent, -⟩ | ⟨-, hnext⟩
      · exact absurd hx habsent
      · change (s.perform H operation).2.revision c.instanceId = _ at hmoved
        omega
  refine h.step (fun c' hc' => ?_) htouches.snapshots
    (fun x hx => ⟨htouches.instances x hx, hrises x hx⟩) ?_
  · change (s.perform H (.commit c t now activationId)).1 = .granted c' at hc'
    simp only [perform] at hc'
    split at hc' <;> simp at hc'
  · -- A commit that goes through takes a revision above all those before it.
    intro x r hr
    obtain ⟨c', t', now', activationId', hoperation, hx, hreply⟩ := committedOn_eq_some hr
    obtain ⟨rfl, rfl, rfl, rfl⟩ := Operation.commit.inj hoperation
    obtain rfl := hx
    obtain ⟨s', hok, hs'⟩ := perform_committed hreply
    obtain ⟨hrevision, hpresent⟩ := committed_row hok
    refine ⟨⟨hs' ▸ hpresent, ?_⟩, fun r' hr' => ?_⟩
    · change r ≤ (s.perform H (.commit c t now activationId)).2.revision c.instanceId
      rw [hs', hrevision]
    · obtain ⟨hthere, hle⟩ := h.committed c.instanceId r' hr'
      obtain ⟨hcommits, hnumber, -⟩ := (commitTransition_eq_ok H now activationId c t s).mp hok
      have hstart : (pendingWritten c t s).isStart c = s.isStart c :=
        (congrArg (isStart · c) (pendingWritten_exceptPending c t s) :)
      rw [hstart] at hnumber
      rcases newRevision_of_current hcommits.admits.current hbound with ⟨habsent, -⟩ | ⟨-, hnext⟩
      · exact absurd hthere habsent
      · omega

theorem Calls.numbered (h : Calls H s operation reply s') (hs : Numbered seen s)
    (howned : operation.Owned seen) : Numbered (seen ++ [⟨s, operation, reply⟩]) s' := by
  cases h with
  | commit h =>
    have hnumbered := hs.commit (H := H) howned
    simp only [h] at hnumbered
    exact hnumbered
  | idle hgranted hcommitted =>
    exact hs.quiet (fun _ hx => hx) rfl rfl (fun c hc => absurd hc (hgranted c)) hcommitted
  | quarantined =>
    exact hs.quiet (fun y hy => Std.ExtTreeMap.mem_insert.mpr (.inr hy)) rfl rfl (by simp) (by simp)
  | granted hinst hcheck =>
    refine hs.quiet (fun _ hx => hx) rfl rfl (fun c hc => ?_) (by simp)
    -- The claim carries the revision of a snapshot, which is in range.
    obtain rfl := Reply.granted.inj hc
    obtain ⟨⟨envelope, henvelope, hrevision⟩, -⟩ := checkIntegrity_revision hcheck
    exact hrevision ▸ hs.snapshots _ envelope henvelope
  | released => exact hs.quiet (fun _ hx => hx) rfl rfl (by simp) (by simp)

theorem numbered_of_owned {operations : List Operation} (h : OwnedRun H operations) :
    Numbered (turns H operations {}) (after H operations {}) := by
  induction h with
  | nil =>
    refine ⟨by simp [turns], fun x envelope hx => ?_, by simp [turns], by simp [turns]⟩
    simp [after] at hx
  | @step operations operation _ howned ih =>
    rw [turns_concat, after_concat]
    exact (perform_calls H _ operation).numbered ih howned

end Distinct

section Linked

variable (H : StoreHost)

/-- The journal counts revisions from `first` without a gap, each record follows the state the one
before it left, the snapshot is that of the last record, and the stored revision is that of the last
record or the next. -/
structure History.Linked (first : ℕ) (h : History) : Prop where
  revisions : h.journal.map (·.newRevision) = List.range' first h.journal.length
  priors : ∀ record ∈ h.journal, record.priorRevision = (record.newRevision : ℤ) - 1
  hashes : h.journal.IsChain (fun earlier later => later.priorStateHash = earlier.stateHash)
  snapshot : ∀ record ∈ h.journal.getLast?,
    ∃ envelope, h.snapshot = some envelope ∧ H.stateHash envelope = .ok record.stateHash
  there : h.journal ≠ [] → h.present = true
  fresh : h.present = false → h.revision = 0
  stored : h.journal ≠ [] →
    h.revision + 1 = first + h.journal.length ∨ h.revision = first + h.journal.length

/-- The stored revision is one less than the number of records. -/
def History.Settled (h : History) : Prop := h.present = true → h.revision + 1 = h.journal.length

/-- Children are new instances, none of them the committed one. -/
structure FreshChildren (claim : Claim) (t : Transition) (s : Store) : Prop where
  distinct : (t.childStarts.map (·.inst.instanceId)).Nodup
  other : ∀ child ∈ t.childStarts, child.inst.instanceId ≠ claim.instanceId
  fresh : ∀ child ∈ t.childStarts, child.inst.instanceId ∉ s.instances

def Turn.Fresh (turn : Turn) : Prop :=
  match turn.operation with
  | .commit c t _ _ => FreshChildren c t turn.store
  | _ => True

/-- A commit that begins to write goes through. -/
def Turn.Sound (turn : Turn) : Prop :=
  match turn.operation with
  | .commit c t _ _ => Begins H c t turn.store → Commits H c t turn.store
  | _ => True

/-- What a commit leaves of the history of another instance: the journal as it was, or the first
record of a child. A commit that has `stopped` may leave the row of a child alone. -/
inductive Leaves (children : List ChildStart) (stopped : Prop) (x : Uuid) (h : History) :
    History → Prop
  | kept {present : Bool} (revision : ℕ)
      (hpresent : present = h.present ∨ present = true ∧ stopped) :
      Leaves children stopped x h { h with present, revision }
  | child {child : ChildStart} (revision : ℕ) (hchild : child ∈ children)
      (hx : child.inst.instanceId = x) (hhash : Hashable H (childEnvelope child)) :
      Leaves children stopped x h
        ⟨true, revision, some (childEnvelope child), h.journal ++ [childRecord H child]⟩

variable {H} {s : Store} {t : Transition} {now : Timestamp} {activationId : Uuid} {first : ℕ}
  {h k : History} {children children' : List ChildStart} {stopped : Prop}

namespace Leaves

theorem refl (h : History) : Leaves H children stopped x h h := .kept h.revision (.inl rfl)

theorem mono (hk : Leaves H children stopped x h k) (hsub : children ⊆ children') :
    Leaves H children' stopped x h k := by
  cases hk with
  | kept revision hpresent => exact .kept revision hpresent
  | child revision hchild hx hhash => exact .child revision (hsub hchild) hx hhash

theorem revised (hk : Leaves H children stopped x h k) (revision : ℕ) :
    Leaves H children stopped x h { k with revision } := by
  cases hk with
  | kept _ hpresent => exact .kept revision hpresent
  | child _ hchild hx hhash => exact .child revision hchild hx hhash

theorem of_present {present : Bool} (hk : Leaves H children True x { h with present } k)
    (hpresent : present = h.present ∨ present = true) : Leaves H children True x h k := by
  cases hk with
  | kept revision hlater =>
    refine .kept revision ?_
    rcases hlater with rfl | hthere
    · exact hpresent.imp id fun hthere => ⟨hthere, trivial⟩
    · exact .inr hthere
  | child revision hchild hx hhash => exact .child revision hchild hx hhash

theorem journal (hk : Leaves H children stopped x h k) : h.journal <+: k.journal := by
  cases hk with
  | kept => exact List.prefix_rfl
  | child => exact List.prefix_append _ _

end Leaves

theorem insert_present (y : Uuid) (inst : ProcessInstance) :
    decide (x ∈ s.instances.insert y inst) = (s.history x).present ∨
      decide (x ∈ s.instances.insert y inst) = true := by
  by_cases hy : y = x
  · simp [hy]
  · simp [history, Std.ExtTreeMap.mem_insert, hy]

theorem writeChild_error {child : ChildStart} {stop : CommitStop}
    (h : writeChild H child s = .error stop s') :
    s'.history x = { s.history x with
      present := decide (x ∈ s.instances.insert child.inst.instanceId child.inst) } := by
  obtain rfl : s' = writeChildRows child s := by
    simp only [writeChild, modify_bind, hashEnvelope] at h
    cases hhash : H.stateHash (childEnvelope child) with
    | ok digest =>
      rw [hhash] at h
      cases h
    | error message =>
      rw [hhash] at h
      exact (EStateM.Result.error.inj h).2.symm
  simp only [history, writeChildRows_revision]
  rfl

theorem children_leave (hids : (children.map (·.inst.instanceId)).Nodup)
    (hhash : (∀ child ∈ children, Hashable H (childEnvelope child)) ∨ stopped) (s : Store) :
    Leaves H children stopped x (s.history x)
      ((leaves (children.forM (writeChild H)) s).history x) := by
  induction children generalizing s with
  | nil => exact .refl _
  | cons child rest ih =>
    rw [List.map_cons, List.nodup_cons] at hids
    rw [List.forall_mem_cons] at hhash
    cases hwrite : writeChild H child s with
    | error stop s₁ =>
      rw [forM_cons, leaves, bind_error hwrite]
      change Leaves H _ _ x _ (s₁.history x)
      rw [writeChild_error hwrite]
      refine .kept _ ((insert_present _ _).imp id fun hthere => ⟨hthere, hhash.resolve_left ?_⟩)
      intro hall
      have hok := (writeChild_takes H child s _).mpr ⟨hall.1, rfl⟩
      cases hwrite.symm.trans hok
    | ok _ s₁ =>
      obtain ⟨hhashable, rfl⟩ := (writeChild_takes H child s s₁).mp hwrite
      have hleft := ih hids.2 (hhash.imp And.right id) (childWritten H child s)
      rw [forM_cons, leaves, bind_ok hwrite]
      change Leaves H _ _ x _ (history (leaves (rest.forM (writeChild H)) (childWritten H child s)) x)
      generalize history (leaves (rest.forM (writeChild H)) (childWritten H child s)) x = k at hleft ⊢
      rw [childWritten_history] at hleft
      split at hleft
      · rename_i hx
        cases hleft with
        | kept revision hpresent =>
          obtain rfl := hpresent.elim id And.left
          exact .child revision List.mem_cons_self hx hhashable
        | child _ hother hx' =>
          exact absurd (List.mem_map.mpr ⟨_, hother, hx'.trans hx.symm⟩) hids.1
      · exact hleft.mono (List.subset_cons_self ..)

theorem writeRevision_history (start : Bool) (s : Store) :
    { (writeRevision c t start s).history x with revision := 0 } =
      { s.history x with revision := 0 } := by
  have hevents := appendEvents_exceptEvents c.instanceId t.events s
  exact (congrArg (fun s => { history s x with revision := 0 }) hevents :)

theorem commitTransition_leaves (hids : (t.childStarts.map (·.inst.instanceId)).Nodup) (x : Uuid) :
    Stops (Leaves H t.childStarts True x) (fun s => s.history x)
      (commitTransition H now activationId c t) := by
  apply commitTransition_stops H now activationId c t Leaves.refl fun _ => rfl
  intro s stop s' h
  rw [writeTransition_apply] at h
  have hrows : Fixes (fun s => s.history x) (writeRows c t) := by
    refine writeRows_fixes c t (fun _ => rfl) (fun s => ?_) (fun _ => rfl) fun _ => rfl
    unfold cleanUp
    split_ifs <;> rfl
  have hstaged : Leaves H t.childStarts True x ((jobsStaged H c t s).history x) (s'.history x) := by
    refine Fixes.bind_stops Leaves.refl hrows (fun _ => ?_) _ stop s' h
    intro s₁ stop s₃ h
    rcases bind_eq_error.mp h with hchildren | ⟨_, s₂, hchildren, hfinish⟩
    · exact leaves_error hchildren ▸ children_leave hids (.inr trivial) s₁
    · have hwritten : Leaves H t.childStarts True x (s₁.history x) (s₂.history x) :=
        leaves_ok hchildren ▸ children_leave hids (.inr trivial) s₁
      have hsame : { s₃.history x with revision := 0 } = { s₂.history x with revision := 0 } :=
        finish_stops H now activationId c t (Q := fun before after => after = before)
          (g := fun s => { s.history x with revision := 0 }) (fun _ => rfl) _ _
          (writeRevision_history _) s₂ stop s₃ hfinish
      have hlast : s₃.history x = { s₂.history x with revision := (s₃.history x).revision } :=
        congrArg (fun h => { h with revision := (s₃.history x).revision }) hsame
      change Leaves H t.childStarts True x _ (s₃.history x)
      rw [hlast]
      exact hwritten.revised _
  have hjobs : (jobsStaged H c t s).history x = { s.history x with
      present := decide (x ∈ s.instances.insert c.instanceId (committedInstance H c t s)) } :=
    (congrArg (history · x) (jobsStaged_exceptJobs H c t s) :)
  rw [hjobs] at hstaged
  exact hstaged.of_present (insert_present _ _)

namespace History.Linked

theorem append (hlinked : h.Linked H first)
    (hrevision : record.newRevision = first + h.journal.length)
    (hprior : record.priorRevision = (record.newRevision : ℤ) - 1)
    (hfollows : ∀ last ∈ h.journal.getLast?, record.priorStateHash = last.stateHash)
    (hhash : H.stateHash envelope = .ok record.stateHash) :
    History.Linked H first ⟨true, record.newRevision, some envelope, h.journal ++ [record]⟩ := by
  refine ⟨?_, fun other hother => ?_, ?_, fun last hlast => ?_, by simp, by simp, fun _ => .inl ?_⟩
  · simp [hlinked.revisions, hrevision, List.range'_concat]
  · rcases List.mem_append.mp hother with hold | hnew
    · exact hlinked.priors other hold
    · obtain rfl := List.mem_singleton.mp hnew
      exact hprior
  · rw [List.isChain_append]
    refine ⟨hlinked.hashes, List.isChain_singleton _, fun last hlast next hnext => ?_⟩
    simp only [List.head?_cons, Option.mem_def, Option.some.injEq] at hnext
    exact hnext ▸ hfollows last hlast
  · simp only [List.getLast?_append, List.getLast?_singleton, Option.some_or, Option.mem_def,
      Option.some.injEq] at hlast
    subst hlast
    exact ⟨envelope, rfl, hhash⟩
  · simp only [List.length_append, List.length_singleton]
    omega

theorem empty (hlinked : h.Linked H first) (habsent : h.present = false) : h.journal = [] := by
  by_contra hsome
  exact Bool.false_ne_true (habsent.symm.trans (hlinked.there hsome))

theorem restart (hlinked : h.Linked H first) (hempty : h.journal = []) (first' : ℕ) :
    h.Linked H first' :=
  ⟨by simp [hempty], hlinked.priors, hlinked.hashes, hlinked.snapshot, hlinked.there, hlinked.fresh,
    fun hsome => absurd hempty hsome⟩

/-- The history with the same journal, where its revision is kept or has become the next. -/
theorem kept (hlinked : h.Linked H first) {present : Bool} {revision : ℕ}
    (hpresent : h.present = true → present = true)
    (hrevision : revision = h.revision ∨
      present = true ∧ revision = first + h.journal.length) :
    History.Linked H first { h with present, revision } := by
  refine ⟨hlinked.revisions, hlinked.priors, hlinked.hashes, hlinked.snapshot,
    fun hsome => hpresent (hlinked.there hsome), fun habsent => ?_, fun hsome => ?_⟩
  · rcases hrevision with rfl | ⟨hthere, -⟩
    · refine hlinked.fresh (Bool.eq_false_iff.mpr fun hthere => ?_)
      exact Bool.false_ne_true (habsent.symm.trans (hpresent hthere))
    · exact absurd (habsent.symm.trans hthere) (by decide)
  · rcases hrevision with rfl | ⟨-, rfl⟩
    · exact hlinked.stored hsome
    · exact .inr rfl

end History.Linked

theorem stateHash_of_hashable (h : Hashable H envelope) :
    H.stateHash envelope = .ok (digestOf H envelope) := by
  obtain ⟨digest, hdigest⟩ := h
  simp [digestOf, hdigest, Except.toOption]

section Commit

/-- The claim was granted on a revision of the journal, or starts an instance. -/
def Knows (s : Store) (c : Claim) : Prop :=
  c.expectedRevision ∈ (s.history c.instanceId).journal.map (·.newRevision) ∨ c.expectedRevision = 0

theorem exists_follows (hle : first ≤ 1) (h : (s.history c.instanceId).Linked H first)
    (hcurrent : s.IsCurrent c) (hknown : s.Knows c) (hbound : c.expectedRevision ≤ 2 ^ 63) :
    ∃ first' ≤ 1, (s.history c.instanceId).Linked H first' ∧
      newRevision c (s.isStart c) = first' + (s.history c.instanceId).journal.length := by
  by_cases hempty : (s.history c.instanceId).journal = []
  · -- The first record: of the start, or of a commit after a start that stopped half-way.
    refine ⟨newRevision c (s.isStart c), ?_, h.restart hempty _, by simp [hempty]⟩
    rcases hcurrent with hstart | ⟨row, -, -, -, hrevision⟩
    · simp [newRevision, hstart]
    · have hzero : c.expectedRevision = 0 := hknown.resolve_left (by simp [hempty])
      unfold newRevision
      split <;> omega
  · rcases newRevision_of_current hcurrent hbound with ⟨habsent, -⟩ | ⟨-, hnext⟩
    · exact absurd habsent (not_not.mpr (of_decide_eq_true (h.there hempty)))
    have hlength := List.length_pos_iff.mpr hempty
    have hrevision : s.revision c.instanceId + 1 =
        first + (s.history c.instanceId).journal.length := by
      rcases h.stored hempty with hlast | hstuck
      · exact hlast
      · -- No claim was granted on a revision without a record.
        have hcurrent : c.expectedRevision = s.revision c.instanceId := by
          rcases hcurrent with hstart | ⟨row, -, -, -, hrevision⟩
          · simp only [isStart, Bool.and_eq_true, decide_eq_true_eq] at hstart
            exact absurd (of_decide_eq_true (h.there hempty)) hstart.1.1
          · omega
        change s.revision c.instanceId = _ at hstuck
        rcases hknown with hgranted | hzero
        · rw [h.revisions, List.mem_range'_1] at hgranted
          omega
        · omega
    exact ⟨first, hle, h, hnext.trans hrevision⟩

theorem rowsWritten_leaves (hids : (t.childStarts.map (·.inst.instanceId)).Nodup)
    (hhash : ∀ child ∈ t.childStarts, Hashable H (childEnvelope child)) :
    Leaves H t.childStarts False x ((childrenStaged H c t s).history x)
      ((rowsWritten H c t s).history x) := by
  have hwrite : t.childStarts.forM (writeChild H) (childrenStaged H c t s) =
      .ok () (rowsWritten H c t s) :=
    (Takes.forM (writeChild_takes H) t.childStarts _ _).mpr ⟨passes_const.mpr hhash, rfl⟩
  exact leaves_ok hwrite ▸ children_leave hids (.inl hhash) _

variable (now activationId) in
theorem committed_leaves (hchildren : FreshChildren c t s) (haccepts : Accepts H c t s)
    (hx : c.instanceId ≠ x) :
    Leaves H t.childStarts False x (s.history x)
      ((committed H now activationId c t s).history x) := by
  have hrows := rowsWritten_leaves (H := H) (c := c) (s := s) (x := x) hchildren.distinct
    haccepts.children
  rw [childrenStaged_history, if_neg hx] at hrows
  unfold committed
  rwa [finished_history, if_neg hx]

theorem rowsWritten_history_self (hchildren : FreshChildren c t s) (haccepts : Accepts H c t s) :
    ((rowsWritten H c t s).history c.instanceId).journal = (s.history c.instanceId).journal ∧
      ((rowsWritten H c t s).history c.instanceId).snapshot =
        (s.history c.instanceId).snapshot := by
  have hrows := rowsWritten_leaves (H := H) (c := c) (s := s) (x := c.instanceId) hchildren.distinct
    haccepts.children
  rw [childrenStaged_history, if_pos rfl] at hrows
  generalize (rowsWritten H c t s).history c.instanceId = k at hrows ⊢
  cases hrows with
  | kept => exact ⟨rfl, rfl⟩
  | child _ hchild hx => exact absurd hx (hchildren.other _ hchild)

theorem commitRecord_follows (hchildren : FreshChildren c t s) (haccepts : Accepts H c t s)
    (h : (s.history c.instanceId).Linked H first) {start : Bool}
    (hlast : last ∈ (s.history c.instanceId).journal.getLast?) :
    (commitRecord H c t start snapshot (writeRevision c t start (rowsWritten H c t s))).priorStateHash =
      last.stateHash := by
  have hsnapshots : (writeRevision c t start (rowsWritten H c t s)).snapshots =
      (rowsWritten H c t s).snapshots :=
    (congrArg Store.snapshots (appendEvents_exceptEvents c.instanceId t.events _) :)
  obtain ⟨envelope, henvelope, hhash⟩ := h.snapshot last hlast
  have hstored : (rowsWritten H c t s).snapshots[c.instanceId]? = some envelope :=
    (rowsWritten_history_self hchildren haccepts).2.trans henvelope
  change (writeRevision c t start (rowsWritten H c t s)).priorStateHash H c.instanceId = _
  simp [Store.priorStateHash, hsnapshots, hstored, hhash, Except.toOption]

theorem linked_self (h : (s.history c.instanceId).Linked H first) (hchildren : FreshChildren c t s)
    (hnext : newRevision c (s.isStart c) = first + (s.history c.instanceId).journal.length)
    (haccepts : Accepts H c t s) :
    ((committed H now activationId c t s).history c.instanceId).Linked H first := by
  have hwritable := (writable_iff H c t s).mpr haccepts
  rw [committed_history_self, (rowsWritten_history_self hchildren haccepts).1]
  refine h.append hnext ?_ (fun last hlast => commitRecord_follows hchildren haccepts h hlast)
    (stateHash_of_hashable hwritable.hashable)
  change (if s.isStart c then (-1 : ℤ) else c.expectedRevision) = newRevision c (s.isStart c) - 1
  unfold newRevision
  rcases haccepts.range with hstart | hlt
  · simp [hstart]
  · split <;> omega

theorem linked_child (hlinked : h.Linked H first) (habsent : h.present = false)
    (hhash : Hashable H (childEnvelope child)) :
    History.Linked H 0 ⟨true, 0, some (childEnvelope child), h.journal ++ [childRecord H child]⟩ := by
  have hempty := hlinked.empty habsent
  have hfirst : (childRecord H child).newRevision = 0 + h.journal.length := by
    rw [hempty]
    rfl
  exact (hlinked.restart hempty 0).append hfirst rfl (by simp [hempty])
    (stateHash_of_hashable hhash)

theorem FreshChildren.congr (h : FreshChildren c t s) (hinstances : s'.instances = s.instances) :
    FreshChildren c t s' :=
  ⟨h.distinct, h.other, fun child hchild => hinstances ▸ h.fresh child hchild⟩

theorem Leaves.linked (hleaves : Leaves H t.childStarts stopped x (s.history x) (s'.history x))
    (hle : first ≤ 1) (hlinked : (s.history x).Linked H first) (hchildren : FreshChildren c t s)
    (hknown : s.Knows c) (hbound : c.expectedRevision ≤ 2 ^ 63)
    (hmoves : s'.revision x = s.revision x ∨ x = c.instanceId ∧ s.IsCurrent c ∧
      x ∈ s'.instances ∧ s'.revision x = newRevision c (s.isStart c)) :
    (∃ first ≤ 1, (s'.history x).Linked H first) ∧
      (¬ stopped → x ≠ c.instanceId → (s.history x).Settled → (s'.history x).Settled) := by
  change (s'.history x).revision = _ ∨ _ ∧ _ ∧ _ ∧ (s'.history x).revision = _ at hmoves
  have hthere : x ∈ s'.instances → (s'.history x).present = true := decide_eq_true
  generalize s'.history x = k at hleaves hmoves hthere ⊢
  cases hleaves with
  | kept revision hpresent =>
    have hstays : (s.history x).present = true → _ = true := fun h =>
      hpresent.elim (fun hsame => hsame.trans h) And.left
    refine ⟨?_, fun hstopped hx hsettled hthere => ?_⟩
    · rcases hmoves with hsame | ⟨rfl, hcurrent, hrow, hmoved⟩
      · exact ⟨first, hle, hlinked.kept hstays (.inl hsame)⟩
      · obtain ⟨first', hle', hlinked', hnext⟩ := exists_follows hle hlinked hcurrent hknown hbound
        exact ⟨first', hle', hlinked'.kept hstays (.inr ⟨hthere hrow, hmoved.trans hnext⟩)⟩
    · rcases hpresent with rfl | ⟨-, hstop⟩
      · rw [hmoves.resolve_right fun hself => hx hself.1]
        exact hsettled hthere
      · exact absurd hstop hstopped
  | @child child revision hchild hx hhash =>
    subst hx
    have habsent : (s.history child.inst.instanceId).present = false :=
      decide_eq_false (hchildren.fresh child hchild)
    have hempty := hlinked.empty habsent
    have hsame := hmoves.resolve_right fun hself => hchildren.other child hchild hself.1
    obtain rfl : revision = 0 := hsame.trans (hlinked.fresh habsent)
    exact ⟨⟨0, zero_le_one, linked_child hlinked habsent hhash⟩, fun _ _ _ _ => by simp [hempty]⟩

theorem settled_self (hlinked : (s.history c.instanceId).Linked H first)
    (hchildren : FreshChildren c t s) (hbound : c.expectedRevision ≤ 2 ^ 63)
    (hcurrent : s.IsCurrent c) (haccepts : Accepts H c t s)
    (hsettled : (s.history c.instanceId).Settled) :
    ((committed H now activationId c t s).history c.instanceId).Settled := by
  rw [committed_history_self, (rowsWritten_history_self hchildren haccepts).1]
  intro _
  simp only [List.length_append, List.length_singleton, add_left_inj]
  rcases newRevision_of_current hcurrent hbound with ⟨habsent, hzero⟩ | ⟨hpresent, hmoved⟩
  · simp [hzero, hlinked.empty (decide_eq_false habsent)]
  · exact hmoved.trans (hsettled (decide_eq_true hpresent))

end Commit

section Runs

variable {seen : List Turn}

variable (H) in
/-- What a run keeps whose children are new instances. -/
structure Journaled (seen : List Turn) (s : Store) : Prop where
  linked : ∀ x, ∃ first ≤ 1, (s.history x).Linked H first
  granted : ∀ turn ∈ seen, ∀ c, turn.reply = .granted c →
    c.expectedRevision ∈ (s.history c.instanceId).journal.map (·.newRevision)
  settled : (∀ turn ∈ seen, turn.Sound H) → ∀ x, (s.history x).Settled

theorem Journaled.step (hs : Journaled H seen s) {turn : Turn}
    (hgranted : ∀ c, turn.reply = .granted c →
      c.expectedRevision ∈ (s'.history c.instanceId).journal.map (·.newRevision))
    (hnext : ∀ x, (∃ first ≤ 1, (s'.history x).Linked H first) ∧
      (s.history x).journal <+: (s'.history x).journal ∧
      (turn.Sound H → (s.history x).Settled → (s'.history x).Settled)) :
    Journaled H (seen ++ [turn]) s' := by
  refine ⟨fun x => (hnext x).1, fun other hother c hc => ?_, fun hsound x => ?_⟩
  · rcases List.mem_append.mp hother with hold | hnew
    · exact ((hnext c.instanceId).2.1.map _).subset (hs.granted other hold c hc)
    · obtain rfl := List.mem_singleton.mp hnew
      exact hgranted c hc
  · refine (hnext x).2.2 (hsound turn (by simp)) (hs.settled (fun other hother => ?_) x)
    exact hsound other (List.mem_append_left _ hother)

theorem Journaled.quiet (hs : Journaled H seen s) {turn : Turn}
    (hsame : ∀ x, s'.history x = s.history x)
    (hgranted : ∀ c, turn.reply = .granted c →
      c.expectedRevision ∈ (s.history c.instanceId).journal.map (·.newRevision)) :
    Journaled H (seen ++ [turn]) s' := by
  refine hs.step (fun c hc => (hsame c.instanceId).symm ▸ hgranted c hc) fun x => ?_
  rw [hsame]
  exact ⟨hs.linked x, List.prefix_rfl, fun _ => id⟩

theorem Journaled.commit (hs : Journaled H seen s) (hbound : c.expectedRevision ≤ 2 ^ 63)
    (howned : (Operation.commit c t now activationId).Owned seen) (hchildren : FreshChildren c t s)
    (hperform : s.perform H (.commit c t now activationId) = (reply, s')) :
    Journaled H (seen ++ [⟨s, .commit c t now activationId, reply⟩]) s' := by
  have hknown : s.Knows c := by
    rcases howned with ⟨turn, hturn, hreply⟩ | ⟨hzero, -⟩
    · exact .inl (hs.granted turn hturn c hreply)
    · exact .inr hzero
  have hmoves := perform_commit_revision (H := H) (s := s) c t now activationId
  rw [hperform] at hmoves
  cases hcommit : commitTransition H now activationId c t s with
  | error stop s₁ =>
    simp only [perform, hcommit, Prod.mk.injEq] at hperform
    obtain ⟨rfl, rfl⟩ := hperform
    refine hs.step (by simp) fun x => ?_
    obtain ⟨first, hle, hlinked⟩ := hs.linked x
    have hleaves : Leaves H t.childStarts True x (s.history x) (s₁.history x) :=
      commitTransition_leaves hchildren.distinct x s stop s₁ hcommit
    refine ⟨(hleaves.linked hle hlinked hchildren hknown hbound (hmoves x)).1, hleaves.journal,
      fun hsound hsettled => ?_⟩
    have hrefused := not_commits_of_error H now activationId c t s hcommit
    rwa [unchanged_of_not_begins H now activationId c t s (fun hb => hrefused (hsound hb)) hcommit]
  | ok revision s₁ =>
    simp only [perform, hcommit, Prod.mk.injEq] at hperform
    obtain ⟨rfl, rfl⟩ := hperform
    obtain ⟨hcommits, -, rfl⟩ := (commitTransition_eq_ok H now activationId c t s).mp hcommit
    -- The pending invocations are no part of the history, so the commit may start after them.
    have hpending := pendingWritten_exceptPending c t s
    have hchronicle : (pendingWritten c t s).chronicle = s.chronicle :=
      (congrArg chronicle hpending :)
    have hsame := history_congr hchronicle
    have hcurrent := ((admits_congr c t hpending).mpr hcommits.admits).current
    have haccepts := (accepts_congr H c t hpending).mpr hcommits.accepts
    have hstaged := hchildren.congr (congrArg Prod.fst hchronicle)
    refine hs.step (by simp) fun x => ?_
    obtain ⟨first, hle, hlinked⟩ := hs.linked x
    by_cases hx : c.instanceId = x
    · subst hx
      have hknown' : (pendingWritten c t s).Knows c := by
        rwa [Knows, hsame]
      rw [← hsame] at hlinked ⊢
      obtain ⟨first', hle', hlinked', hnext⟩ := exists_follows hle hlinked hcurrent hknown' hbound
      refine ⟨⟨first', hle', linked_self hlinked' hstaged hnext haccepts⟩, ?_, fun _ =>
        settled_self hlinked hstaged hbound hcurrent haccepts⟩
      rw [committed_history_self, (rowsWritten_history_self hstaged haccepts).1]
      exact List.prefix_append _ _
    · have hleaves : Leaves H t.childStarts False x (s.history x) _ :=
        hsame x ▸ committed_leaves now activationId hstaged haccepts hx
      obtain ⟨hnext, hsettled⟩ := hleaves.linked hle hlinked hchildren hknown hbound (hmoves x)
      exact ⟨hnext, hleaves.journal, fun _ => hsettled id (Ne.symm hx)⟩

theorem Calls.journaled (h : Calls H s operation reply s') (hs : Journaled H seen s)
    (hbound : Numbered seen s) (howned : operation.Owned seen)
    (hfresh : Turn.Fresh ⟨s, operation, reply⟩) :
    Journaled H (seen ++ [⟨s, operation, reply⟩]) s' := by
  cases h with
  | @commit c t now activationId _ _ h =>
    refine hs.commit ?_ howned hfresh h
    rcases howned with ⟨turn, hturn, hreply⟩ | ⟨hzero, -⟩
    · exact hbound.granted turn hturn c hreply
    · omega
  | idle hgranted => exact hs.quiet (fun _ => rfl) fun c hc => absurd hc (hgranted c)
  | released => exact hs.quiet (fun _ => rfl) (by simp)
  | granted hinst hcheck =>
    refine hs.quiet (fun _ => rfl) fun c hc => ?_
    obtain rfl := Reply.granted.inj hc
    exact (checkIntegrity_revision hcheck).2
  | @quarantined _ _ y inst hinst =>
    -- An instance put into quarantine keeps its history.
    have hpresent : y ∈ s.instances := by
      rw [Std.ExtTreeMap.mem_iff_isSome_getElem?, hinst]
      rfl
    refine hs.quiet (fun x => ?_) (by simp)
    by_cases hxy : y = x
    · subst hxy
      simp [history, quarantine, Store.revision, hpresent]
    · simp [history, quarantine, Store.revision, hxy]

theorem journaled_of_owned {operations : List Operation} (h : OwnedRun H operations)
    (hfresh : ∀ turn ∈ turns H operations {}, turn.Fresh) :
    Journaled H (turns H operations {}) (after H operations {}) := by
  induction h with
  | nil =>
    refine ⟨fun x => ⟨0, zero_le_one, ?_⟩, by simp [turns], fun _ x hx => ?_⟩
    · refine ⟨?_, ?_, ?_, ?_, ?_, ?_, ?_⟩ <;> simp [after, history, Store.revision]
    · simp [after, history] at hx
  | @step operations operation hrun howned ih =>
    rw [turns_concat] at hfresh
    rw [turns_concat, after_concat]
    refine (perform_calls H _ operation).journaled (ih fun turn hturn => ?_)
      (numbered_of_owned hrun) howned (hfresh _ (by simp))
    exact hfresh turn (List.mem_append_left _ hturn)

end Runs

theorem commits_of_committed {r : ℕ}
    (h : (s.perform H (.commit c t now activationId)).1 = .committed r) : Commits H c t s := by
  obtain ⟨s', hok, -⟩ := perform_committed h
  exact ((commitTransition_eq_ok H now activationId c t s).mp hok).1

end Linked

/-- No two commits of an instance return the same revision, whatever is claimed, released and
committed in between. Where children are new instances, the journal of every instance is a chain
without a gap, from revision 0 or, after a start that stopped half-way, from 1; and where no commit
stops half-way it starts at 0 and the stored revision is one less than its length. -/
theorem one_commit_per_revision (H : StoreHost) (operations : List Operation)
    (hrun : OwnedRun H operations) :
    (∀ x, ((turns H operations {}).filterMap (Turn.committedOn x)).Nodup) ∧
      ((∀ turn ∈ turns H operations {}, turn.Fresh) →
        (∀ x, ∃ first ≤ 1, ((after H operations {}).history x).Linked H first) ∧
        ((∀ turn ∈ turns H operations {}, turn.Sound H) → ∀ x,
          let history := (after H operations {}).history x
          history.Linked H 0 ∧
            (history.present = true → history.revision + 1 = history.journal.length))) := by
  refine ⟨(numbered_of_owned hrun).distinct, fun hfresh => ?_⟩
  have hjournaled := journaled_of_owned hrun hfresh
  refine ⟨hjournaled.linked, fun hsound x => ⟨?_, hjournaled.settled hsound x⟩⟩
  obtain ⟨first, -, hlinked⟩ := hjournaled.linked x
  by_cases hempty : ((after H operations {}).history x).journal = []
  · exact hlinked.restart hempty 0
  · have hlength := hjournaled.settled hsound x (hlinked.there hempty)
    obtain rfl : first = 0 := by
      rcases hlinked.stored hempty with h | h <;> omega
    exact hlinked

end BpmnLite.Store

namespace BpmnLite.Reference

open Store

/-- The second commit of the instance, under the claim of `a`. -/
def continued : Operation := .commit ⟨"", 0, 0, 1, "a"⟩ { nextSnapshot := inst } 0 0

/-- A commit that stops when the instance is written: there is no such effect. -/
def halted : Operation :=
  .commit ⟨"", 0, 0, 1, "a"⟩ { nextSnapshot := inst, effectMutations := [⟨0, .completed⟩] } 0 0

theorem childless_fresh (turn : Turn)
    (hturn : turn ∈ turns storeHost [started, claimBy "a" 0, halted, continued] {} ∨
      turn ∈ turns storeHost [started, claimBy "a" 0, continued] {}) : turn.Fresh := by
  simp only [turns, List.mem_cons, List.not_mem_nil, or_false] at hturn
  rcases hturn with (rfl | rfl | rfl | rfl) | rfl | rfl | rfl
  all_goals first | trivial | exact ⟨by decide, by simp, by simp⟩

/-- Two commits, without and with one between them that stops half-way. -/
theorem started_continued_chained :
    ((turns storeHost [started, claimBy "a" 0, continued] {}).map Turn.reply =
        [.committed 0, .granted ⟨"", 0, 0, 1, "a"⟩, .committed 1] ∧
      ∀ x, ((Store.after storeHost [started, claimBy "a" 0, continued] {}).history x).Linked
        storeHost 0) ∧
    (turns storeHost [started, claimBy "a" 0, halted, continued] {}).map Turn.reply =
        [.committed 0, .granted ⟨"", 0, 0, 1, "a"⟩, .stopped (.failed .conflict), .committed 1] ∧
      ∀ x, ∃ first ≤ 1, ((Store.after storeHost
        [started, claimBy "a" 0, halted, continued] {}).history x).Linked storeHost first := by
  have hreplies : (turns storeHost [started, claimBy "a" 0, continued] {}).map Turn.reply =
      [.committed 0, .granted ⟨"", 0, 0, 1, "a"⟩, .committed 1] := by decide +kernel
  have hstarted : started.Owned (turns storeHost [] {}) := .inr ⟨rfl, rfl⟩
  have hclaimed : (claimBy "a" 0).Owned (turns storeHost [started] {}) := trivial
  have hcontinued : continued.Owned (turns storeHost [started, claimBy "a" 0] {}) :=
    .inl ⟨_, .tail _ (.head _), by decide +kernel⟩
  have hafter : continued.Owned (turns storeHost [started, claimBy "a" 0, halted] {}) :=
    .inl ⟨_, .tail _ (.head _), by decide +kernel⟩
  have hclaim := (OwnedRun.nil.step hstarted).step hclaimed
  have hrun : OwnedRun storeHost [started, claimBy "a" 0, continued] := hclaim.step hcontinued
  have hhalted : halted.Owned (turns storeHost [started, claimBy "a" 0] {}) := hcontinued
  obtain ⟨-, hsound⟩ := (one_commit_per_revision storeHost _ hrun).2
    fun turn hturn => childless_fresh turn (.inr hturn)
  obtain ⟨hstopped, -⟩ := (one_commit_per_revision storeHost _
    ((hclaim.step hhalted).step hafter)).2 fun turn hturn => childless_fresh turn (.inl hturn)
  refine ⟨⟨hreplies, fun x => (hsound (fun turn hturn => ?_) x).1⟩, by decide +kernel, hstopped⟩
  simp only [turns, List.map_cons, List.map_nil, List.cons.injEq, and_true] at hreplies
  simp only [turns, List.mem_cons, List.not_mem_nil, or_false] at hturn
  rcases hturn with rfl | rfl | rfl
  · exact fun _ => commits_of_committed hreplies.1
  · trivial
  · exact fun _ => commits_of_committed hreplies.2.2

/-- The first commit leaves one record under revision 0. -/
theorem first_revision_one_record :
    (turns storeHost [started] {}).map Turn.reply = [.committed 0] ∧
      (Store.after storeHost [started] {}).revision 0 = 0 ∧
      ((Store.after storeHost [started] {}).journals.getD 0 []).length = 1 := by
  decide +kernel

end BpmnLite.Reference
