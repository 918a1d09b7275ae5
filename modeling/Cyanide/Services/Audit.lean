import Cyanide.Services.Requests
import Cyanide.Vfs.Remove

/-!
# Honeytokens

The filesystem tells its audit callback of reads and deletions, under the resolved path.  What `mkfile` writes goes to
the statistics and the session manager only, and what `mkdir_p` writes to nobody; the deletion of a directory is told
under its own path.  `_fs_audit_hook` raises an alert when the path that it is told is one of the honeytokens as they are
configured.  `alerts_iff` says for each operation when every honeytoken that it touches gets its alert, and
`alerts_run_iff` for each run of requests.
-/

namespace Cyanide

open PosixPath PyText Transition

/-- What the callback is told of a recorded operation: its action and path. -/
def FileOp.audited : FileOp → Option (Str × Str)
  | .read path => some ("read".toList, path)
  | .write _ => none
  | .delete path => some ("delete".toList, path)

structure AuditEvent where
  sessionId : Str
  eventType : Str
  action : Str
  path : Str
  srcIp : Str
  deriving DecidableEq

def criticalAlert : Str := "CRITICAL_ALERT".toList

/-- The closure that `get_filesystem` gives a filesystem. -/
structure AuditHook where
  sessionId : Str
  srcIp : Str
  deriving DecidableEq

/-- The honeytokens of the configuration, or those of the profile when there are none. -/
def honeytokens (configured : List Str) (s : FakeFilesystem) : List Str :=
  if configured = [] then s.profile.honeytokens else configured

/-- `_fs_audit_hook`: the event that is logged. -/
def fsAuditHook (configured : List Str) (s : FakeFilesystem) (hook : AuditHook) (action path : Str) : AuditEvent where
  sessionId := hook.sessionId
  eventType := if (honeytokens configured s).contains path then criticalAlert else "fs_audit".toList
  action := action
  path := path
  srcIp := hook.srcIp

namespace FakeFilesystem

variable (s : FakeFilesystem)

/-! ### What an operation records -/

/-- The records that an operation adds, the last one first. -/
def emitted (o : Op) : List FileOp := (o.apply s).fileOps.take ((o.apply s).fileOps.length - s.fileOps.length)

/-- The content of the file is read when its mode or owner is changed. -/
def readsOnChange (q : Str) : Bool := (s.getNode q).any Node.isFile && decide (q ∉ s.memoryOverlay)

def records : Op → List FileOp
  | .getContent path _ => if resolve path ∈ s.deletedPaths then [] else [.read (resolve path)]
  | .mkfile path .. => if s.HasParent (resolve path) then [.write (resolve path)] else []
  | .mkdirP .. => []
  | .chmod path _ => if s.readsOnChange (resolve path) then [.read (resolve path)] else []
  | .chown path .. => if s.readsOnChange (resolve path) then [.read (resolve path)] else []
  | .remove path => if resolve path = ['/'] ∨ s.pathExists path = false then [] else [.delete (resolve path)]
  | .tick _ => []

variable {s}

private theorem fileOps_foldl_mkdirStep (owner group perm : Str) (parts : List Str) (st : Str × FakeFilesystem) :
    (parts.foldl (mkdirStep owner group perm) st).2.fileOps = st.2.fileOps := by
  induction parts generalizing st with
  | nil => rfl
  | cons part parts ih =>
    rw [List.foldl_cons, ih]
    unfold mkdirStep
    dsimp only
    split <;> rfl

private theorem fileOps_materialize {path : Str} {node : Node} (hd : resolve path ∉ s.deletedPaths) :
    (s.materialize path node).2.fileOps = (if node.isFile then [.read (resolve path)] else []) ++ s.fileOps := by
  unfold materialize
  by_cases hf : node.isFile = true
  · simp only [hf, if_true, getContent, if_neg hd]
    rfl
  · simp only [hf, Bool.false_eq_true, if_false]
    rfl

/-- What is read when `f` writes an entry for the node at a path, from its overlay entry or a new one. -/
private theorem fileOps_change {path : Str} {node : Node} (hn : s.getNode (resolve path) = some node)
    {s' : FakeFilesystem} (hold : ∀ config, s.memoryOverlay.lookup (resolve path) = some config → s'.fileOps = s.fileOps)
    (hnew : s.memoryOverlay.lookup (resolve path) = none →
      s'.fileOps = (s.materialize (resolve path) node).2.fileOps) :
    s'.fileOps = (if s.readsOnChange (resolve path) then [.read (resolve path)] else []) ++ s.fileOps := by
  cases hl : s.memoryOverlay.lookup (resolve path) with
  | some config =>
    have hmem : resolve path ∈ s.memoryOverlay := AList.lookup_isSome.1 (by rw [hl]; rfl)
    rw [hold config hl, if_neg (by simp [readsOnChange, hmem])]
    rfl
  | none =>
    have hmem : resolve path ∉ s.memoryOverlay := AList.lookup_eq_none.1 hl
    have hd := notMem_deletedPaths_of_getNode hn
    rw [hnew hl, fileOps_materialize hd, resolve_resolve]
    simp [readsOnChange, hn, hmem]

theorem fileOps_apply (o : Op) : (o.apply s).fileOps = s.records o ++ s.fileOps := by
  cases o with
  | getContent path args =>
    simp only [Op.apply, getContent, records]
    split <;> rfl
  | mkfile path content owner group perm =>
    by_cases hp : s.HasParent (resolve path)
    · rw [Op.apply, (mkfile_of_parent hp content owner group perm).2, records, if_pos hp]
      rfl
    · rw [Op.apply, mkfile_of_not_parent hp, records, if_neg hp]
      rfl
  | mkdirP path owner group perm => exact fileOps_foldl_mkdirStep owner group perm _ _
  | chmod path perm =>
    show (s.chmod path perm).2.fileOps = _
    unfold chmod
    cases hn : s.getNode (resolve path) with
    | none => simp [records, readsOnChange, hn]
    | some node =>
      refine fileOps_change hn (fun config hl => ?_) fun hl => ?_
      · simp only [hn, hl]
        rfl
      · simp only [hn, hl]
        rfl
  | chown path owner group =>
    show (s.chown path owner group).2.fileOps = _
    unfold chown
    cases hn : s.getNode (resolve path) with
    | none => simp [records, readsOnChange, hn]
    | some node =>
      refine fileOps_change hn (fun config hl => ?_) fun hl => ?_
      · simp only [hn, hl]
        rfl
      · simp only [hn, hl]
        rfl
  | remove path =>
    rw [Op.apply, remove, records]
    simp only [pathExists_resolve]
    split <;> rfl
  | tick now => rfl

theorem emitted_eq (s : FakeFilesystem) (o : Op) : s.emitted o = s.records o := by
  rw [emitted, fileOps_apply]
  simp

/-! ### Alerts -/

/-- The operation reads, writes or deletes what is at the resolved path `q`, or removes a directory above it.  A change
of the mode or the owner is none of these, but may read the content. -/
def Touches (s : FakeFilesystem) (q : Str) : Op → Prop
  | .getContent path _ => resolve path = q ∧ s.pathExists q = true
  | .mkfile path .. => resolve path = q ∧ s.HasParent q
  | .mkdirP path .. => q ∈ walkFrom ['/'] (mkdirParts path) ∧ (s.pathExists q = false ∨ s.isFile q = true)
  | .chmod path _ => resolve path = q ∧ s.readsOnChange q = true
  | .chown path .. => resolve path = q ∧ s.readsOnChange q = true
  | .remove path => resolve path ≠ ['/'] ∧ s.pathExists path = true ∧
      (resolve path = q ∨ (Below (resolve path) q ∧ s.pathExists q = true))
  | .tick _ => False

instance (s : FakeFilesystem) (q : Str) (o : Op) : Decidable (s.Touches q o) :=
  match o with
  | .getContent .. => inferInstanceAs (Decidable (_ ∧ _))
  | .mkfile .. => inferInstanceAs (Decidable (_ ∧ _))
  | .mkdirP .. => inferInstanceAs (Decidable (_ ∧ _))
  | .chmod .. => inferInstanceAs (Decidable (_ ∧ _))
  | .chown .. => inferInstanceAs (Decidable (_ ∧ _))
  | .remove _ => inferInstanceAs (Decidable (_ ∧ _))
  | .tick _ => inferInstanceAs (Decidable False)

/-- The events that the hook logs for an operation. -/
def auditEvents (configured : List Str) (hook : AuditHook) (s : FakeFilesystem) (o : Op) : List AuditEvent :=
  (s.emitted o).reverse.filterMap fun op =>
    op.audited.map fun (action, path) => fsAuditHook configured s hook action path

/-- Every honeytoken that the operation touches gets its alert. -/
def Alerts (configured : List Str) (hook : AuditHook) (s : FakeFilesystem) (o : Op) : Prop :=
  ∀ t ∈ honeytokens configured s, s.Touches (resolve t) o →
    ∃ e ∈ auditEvents configured hook s o, e.eventType = criticalAlert ∧ e.path = t

/-- The operations that tell the callback of `t` when they touch what is there. -/
def Tells (t : Str) : Op → Prop
  | .getContent .. => resolve t = t
  | .mkfile .. => False
  | .mkdirP .. => False
  | .chmod .. => resolve t = t
  | .chown .. => resolve t = t
  | .remove path => resolve path = t
  | .tick _ => True

/-- The operation writes no honeytoken, removes no directory above one, and the honeytokens it touches are configured
by their resolved paths. -/
def Watched (configured : List Str) (s : FakeFilesystem) (o : Op) : Prop :=
  ∀ t ∈ honeytokens configured s, s.Touches (resolve t) o → Tells t o

/-- An alert for a honeytoken is a record that the callback is told of. -/
private theorem exists_alert_iff {configured : List Str} {hook : AuditHook} {o : Op} {t : Str}
    (ht : t ∈ honeytokens configured s) :
    (∃ e ∈ auditEvents configured hook s o, e.eventType = criticalAlert ∧ e.path = t) ↔
      ∃ op ∈ s.records o, op.audited.map Prod.snd = some t := by
  simp only [auditEvents, List.mem_filterMap, List.mem_reverse, emitted_eq]
  constructor
  · rintro ⟨e, ⟨op, hop, he⟩, -, rfl⟩
    obtain ⟨⟨action, path⟩, ha, rfl⟩ := Option.map_eq_some_iff.1 he
    exact ⟨op, hop, by rw [ha]; rfl⟩
  · rintro ⟨op, hop, ha⟩
    obtain ⟨⟨action, path⟩, haudit, rfl⟩ := Option.map_eq_some_iff.1 ha
    have hconfigured : (honeytokens configured s).contains path = true := List.contains_iff_mem.2 ht
    exact ⟨fsAuditHook configured s hook action path, ⟨op, hop, by rw [haudit]; rfl⟩, if_pos hconfigured, rfl⟩

private theorem resolve_iff {q t : Str} (h : q = resolve t) : q = t ↔ resolve t = t := by rw [h]

/-- Every honeytoken that an operation touches gets its alert if and only if the operation tells of each of them. -/
theorem alerts_iff (configured : List Str) (hook : AuditHook) (s : FakeFilesystem) (o : Op) :
    Alerts configured hook s o ↔ Watched configured s o := by
  refine forall_congr' fun t => forall_congr' fun ht => forall_congr' fun htouch => ?_
  rw [exists_alert_iff ht]
  cases o with
  | getContent path args =>
    obtain ⟨hq, hx⟩ := htouch
    have hd : resolve path ∉ s.deletedPaths := by
      intro hd
      rw [← hq, pathExists_resolve, pathExists_eq, layer_eq_deleted.2 hd] at hx
      cases hx
    simp only [records, if_neg hd, List.mem_singleton, exists_eq_left, FileOp.audited, Option.map_some,
      Option.some.injEq]
    exact resolve_iff hq
  | mkfile path content owner group perm =>
    have hp := htouch.2
    rw [← htouch.1] at hp
    simp [records, if_pos hp, FileOp.audited, Tells]
  | mkdirP path owner group perm => simp [records, Tells]
  | chmod path perm =>
    obtain ⟨hq, hr⟩ := htouch
    rw [← hq] at hr
    simp only [records, hr, if_true, List.mem_singleton, exists_eq_left, FileOp.audited, Option.map_some,
      Option.some.injEq]
    exact resolve_iff hq
  | chown path owner group =>
    obtain ⟨hq, hr⟩ := htouch
    rw [← hq] at hr
    simp only [records, hr, if_true, List.mem_singleton, exists_eq_left, FileOp.audited, Option.map_some,
      Option.some.injEq]
    exact resolve_iff hq
  | remove path =>
    obtain ⟨hroot, hx, -⟩ := htouch
    rw [records, if_neg (by simp [hroot, hx])]
    simp [FileOp.audited, Tells]
  | tick now => cases htouch

end FakeFilesystem

/-! ### Runs -/

open FakeFilesystem

/-- Along a run of requests, in copies and moves too, every touched honeytoken gets its alert, just when each operation
tells of the honeytokens that it touches. -/
theorem alerts_run_iff (U : Unicode) (configured : List Str) (hook : AuditHook) (σ : Site) (rs : List Request) :
    (∀ rs' r, rs' ++ [r] <+: rs → ∀ os o, os ++ [o] <+: r.ops U (run (Request.apply U) σ rs') →
      Alerts configured hook (run Op.apply (run (Request.apply U) σ rs').fs os) o) ↔
      OpsMeet U (Watched configured) σ rs := by
  rw [OpsMeet, meets_iff]
  simp only [meets_iff, alerts_iff]

/-- No alert is raised for a honeytoken that a redirection writes, nor for one in a directory that is removed. -/
theorem not_alerts_redirect :
    ¬(∀ os o, os ++ [o] <+: (Request.redirect ['/'] root "secret".toList false (.text "x".toList)).ops ascii bareSite →
      Alerts ["/secret".toList] ⟨"s".toList, "10.0.0.1".toList⟩ (run Op.apply bare os) o) ∧
    ¬Alerts ["/d/secret".toList] ⟨"s".toList, "10.0.0.1".toList⟩ ((bare.mkdirP "/d".toList).mkfile "/d/secret".toList).2
      (.remove "/d".toList) := by
  refine ⟨fun h => ?_, fun h => ?_⟩
  · obtain ⟨e, he, -⟩ := h [] _ (List.prefix_refl _) "/secret".toList (by decide) (by decide)
    exact List.not_mem_nil he
  · obtain ⟨e, he, halert, -⟩ := h "/d/secret".toList (by decide) (by decide)
    obtain rfl := List.mem_singleton.1 he
    exact absurd halert (by decide)

end Cyanide
