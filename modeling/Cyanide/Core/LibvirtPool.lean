import Mathlib.Algebra.Order.Ring.Unbundled.Rat
import Mathlib.Data.List.Perm.Basic
import Cyanide.Lib.OrderedDict
import Cyanide.Lib.PyText
import Cyanide.Lib.Transition
import Cyanide.Vfs.Nodes

/-!
# The pool of virtual machines

`LibvirtPool` hands out virtual machines as leases.  Reservations, releases, the recycling of unused machines and the
end of a rebuild take the lock and are one step each; a health check keeps the lock while it waits for the hypervisor;
`report_failure` takes no lock, and goes by address.  `PoolSystem` adds what the pool does not record: the leases that
sessions hold and have not released, and the rebuilds that are running.
-/

namespace Cyanide

open PosixPath PyText Transition

inductive VmState where
  | ready
  | leased
  | rebuilding
  deriving DecidableEq

structure Vm where
  state : VmState
  ip : Str
  lastUsed : ℚ
  deriving DecidableEq

structure Lease where
  host : Str
  port : ℕ
  vmId : Str
  protocol : Str
  sessionId : Str
  timestamp : ℚ
  deriving DecidableEq

structure LibvirtPool where
  maxVms : ℕ := 5
  vmUnusedTimeout : ℚ := 600
  guestTag : Str := "debian18.04".toList
  guestSshPort : ℕ := 22
  guestTelnetPort : ℕ := 23
  useNat : Bool := true
  natPublicIp : Str := "192.168.1.40".toList
  /-- Whether there is a connection to the hypervisor. -/
  conn : Bool := true
  vms : OrderedDict Str Vm := OrderedDict.empty
  leases : OrderedDict Str Lease := OrderedDict.empty
  /-- The machines of `_rebuild_tasks`. -/
  rebuildTasks : List Str := []

namespace LibvirtPool

variable (p : LibvirtPool)

def setState (vmId : Str) (state : VmState) : LibvirtPool :=
  { p with vms := p.vms.modify vmId fun v => { v with state } }

/-- Mark a machine and start the task that rebuilds it. -/
def startRebuild (vmId : Str) : LibvirtPool :=
  { p.setState vmId .rebuilding with rebuildTasks := p.rebuildTasks ++ [vmId] }

/-- `_sync_vms` for one domain of the hypervisor, with the address that it reports. -/
def syncVm (now : ℚ) (domain : Str × Str) : LibvirtPool :=
  if contains p.guestTag domain.1 && domain.1 ∉ p.vms.keys then
    { p with vms := p.vms.insert domain.1 ⟨.ready, if p.useNat then p.natPublicIp else domain.2, now⟩ }
  else p

def syncVms (now : ℚ) (domains : List (Str × Str)) : LibvirtPool :=
  if p.conn then domains.foldl (fun p domain => p.syncVm now domain) p else p

def provisionVm (now : ℚ) (vmId : Str) : LibvirtPool :=
  setState { p with
    vms := p.vms.insert vmId ⟨.rebuilding, if p.useNat then p.natPublicIp else "127.0.0.1".toList, now⟩ } vmId .ready

def readyVms : List Str := (p.vms.entries.filter (·.2.state = .ready)).map Prod.fst

def newVmId : Str := p.guestTag ++ '-' :: natText (p.vms.length + 1)

/-- `reserve_target`, for a machine that is ready. -/
def lease (now : ℚ) (sessionId protocol vmId : Str) : Lease × LibvirtPool :=
  let p' := { p with vms := p.vms.modify vmId fun v => { v with state := .leased, lastUsed := now } }
  let lease : Lease :=
    { host := ((p'.vms.lookup vmId).map Vm.ip).getD []
      port := if protocol = "ssh".toList then p.guestSshPort else p.guestTelnetPort
      vmId, protocol, sessionId, timestamp := now }
  (lease, { p' with leases := p.leases.insert sessionId lease })

/-- The method `reserve_target`. -/
def reserveTarget (now : ℚ) (sessionId protocol : Str) : Option Lease × LibvirtPool :=
  match p.readyVms with
  | vmId :: _ => ((p.lease now sessionId protocol vmId).1, (p.lease now sessionId protocol vmId).2)
  | [] =>
    if p.vms.length < p.maxVms then
      let p' := p.provisionVm now p.newVmId
      ((p'.lease now sessionId protocol p.newVmId).1, (p'.lease now sessionId protocol p.newVmId).2)
    else (none, p)

def releaseTarget (lease : Lease) : LibvirtPool :=
  let p' := { p with leases := p.leases.erase lease.sessionId }
  if lease.vmId ∈ p.vms.keys then p'.startRebuild lease.vmId else p'

/-- The machine that a failure is reported for: the first one with the address. -/
def vmAt (host : Str) : Option (Str × Vm) := p.vms.entries.find? (·.2.ip = host)

def reportFailure (host : Str) : LibvirtPool :=
  match p.vmAt host with
  | some (vmId, v) => if v.state = .leased then p.startRebuild vmId else p
  | none => p

/-- The end of `_rebuild_vm`, for the `i`-th task. -/
def rebuildDone (now : ℚ) (i : ℕ) (vmId : Str) : LibvirtPool :=
  { p with
    rebuildTasks := p.rebuildTasks.eraseIdx i
    vms := p.vms.modify vmId fun v => { v with state := .ready, lastUsed := now } }

/-- `_check_vm_recycle`. -/
def checkVmRecycle (now : ℚ) (vmId : Str) : LibvirtPool :=
  match p.vms.lookup vmId with
  | some v => if v.state = .ready ∧ p.conn = true ∧ now - v.lastUsed > p.vmUnusedTimeout then p.startRebuild vmId else p
  | none => p

/-- A round of `_recycle_loop`. -/
def recycle (now : ℚ) : LibvirtPool := p.vms.keys.foldl (fun p vmId => p.checkVmRecycle now vmId) p

end LibvirtPool

/-- A health check that holds the lock: the machines that are left, and whether the hypervisor was asked for the first
of them. -/
structure HealthCheck where
  todo : List Str
  awaiting : Bool

structure PoolSystem where
  pool : LibvirtPool
  /-- The leases that sessions have and did not release. -/
  held : List Lease
  healthCheck : Option HealthCheck

inductive PoolStep where
  | reserveTarget (now : ℚ) (sessionId protocol : Str)
  /-- The holder of the `i`-th lease releases it. -/
  | releaseTarget (i : ℕ)
  | reportFailure (host : Str)
  | rebuildDone (now : ℚ) (i : ℕ)
  | recycle (now : ℚ)
  | healthBegin
  /-- `_check_vm_health` looks at the state of the next machine, and asks the hypervisor if that is `ready`. -/
  | healthLook
  /-- The hypervisor answers. -/
  | healthAnswer (active : Bool)
  | healthEnd

namespace PoolSystem

variable (s : PoolSystem)

/-- A pool that was synchronised with the domains of the hypervisor. -/
def start (p : LibvirtPool) (now : ℚ) (domains : List (Str × Str)) : PoolSystem := ⟨p.syncVms now domains, [], none⟩

def reserveTarget (now : ℚ) (sessionId protocol : Str) : PoolSystem :=
  { s with
    pool := (s.pool.reserveTarget now sessionId protocol).2
    held := (s.pool.reserveTarget now sessionId protocol).1.toList ++ s.held }

def healthLook (h : HealthCheck) (vmId : Str) (todo : List Str) : PoolSystem :=
  if (s.pool.vms.lookup vmId).map Vm.state ≠ some .ready ∨ s.pool.conn = false then
    { s with healthCheck := some ⟨todo, false⟩ }
  else { s with healthCheck := some { h with awaiting := true } }

def healthAnswer (active : Bool) (vmId : Str) (todo : List Str) : PoolSystem :=
  { s with
    pool := if active then s.pool else s.pool.startRebuild vmId
    healthCheck := some ⟨todo, false⟩ }

end PoolSystem

namespace PoolStep

/-- A step that needs the lock is not taken while a health check has it. -/
def apply (s : PoolSystem) : PoolStep → PoolSystem
  | reserveTarget now sessionId protocol =>
    if s.healthCheck.isSome then s else s.reserveTarget now sessionId protocol
  | releaseTarget i =>
    match s.healthCheck, s.held[i]? with
    | none, some lease => { s with pool := s.pool.releaseTarget lease, held := s.held.eraseIdx i }
    | _, _ => s
  | reportFailure host => { s with pool := s.pool.reportFailure host }
  | rebuildDone now i =>
    match s.healthCheck, s.pool.rebuildTasks[i]? with
    | none, some vmId => { s with pool := s.pool.rebuildDone now i vmId }
    | _, _ => s
  | recycle now => if s.healthCheck.isSome then s else { s with pool := s.pool.recycle now }
  | healthBegin =>
    if s.healthCheck.isSome || !s.pool.conn then s else { s with healthCheck := some ⟨s.pool.vms.keys, false⟩ }
  | healthLook =>
    match s.healthCheck with
    | some ⟨vmId :: todo, false⟩ => s.healthLook ⟨vmId :: todo, false⟩ vmId todo
    | _ => s
  | healthAnswer active =>
    match s.healthCheck with
    | some ⟨vmId :: todo, true⟩ => s.healthAnswer active vmId todo
    | _ => s
  | healthEnd =>
    match s.healthCheck with
    | some ⟨[], _⟩ => { s with healthCheck := none }
    | _ => s

end PoolStep

/-! ### Leases and rebuilds exclude each other -/

/-- A machine is leased or rebuilt once at most, and neither when it is ready; `leased` are the machines of the leases
that are held. -/
structure LibvirtPool.Separate (p : LibvirtPool) (leased : List Str) : Prop where
  busy : ∀ v, leased.count v + p.rebuildTasks.count v ≤ 1
  idle : ∀ v vm, p.vms.lookup v = some vm → vm.state = .ready → leased.count v + p.rebuildTasks.count v = 0
  known : ∀ v, v ∈ leased ∨ v ∈ p.rebuildTasks → v ∈ p.vms.keys

namespace LibvirtPool.Separate

variable {p : LibvirtPool} {leased : List Str} {v : Str}

theorem perm {leased' : List Str} (h : p.Separate leased) (hp : leased.Perm leased') : p.Separate leased' where
  busy v := by
    rw [← hp.count_eq]
    exact h.busy v
  idle v vm hl hs := by
    rw [← hp.count_eq]
    exact h.idle v vm hl hs
  known v hv := h.known v (by rwa [hp.mem_iff])

/-- A change of the machine `v` alone, to a state other than `ready`. -/
private theorem modify {f : Vm → Vm} {tasks leased' : List Str} {leases : OrderedDict Str Lease} (h : p.Separate leased)
    (hf : ∀ vm, (f vm).state ≠ .ready) (hv : v ∈ p.vms.keys)
    (hcount : ∀ w, leased'.count w + tasks.count w =
      if w = v then 1 else leased.count w + p.rebuildTasks.count w)
    (hknown : ∀ w, w ∈ leased' ∨ w ∈ tasks → w = v ∨ w ∈ leased ∨ w ∈ p.rebuildTasks) :
    Separate { p with vms := p.vms.modify v f, rebuildTasks := tasks, leases := leases } leased' where
  busy w := by
    show leased'.count w + tasks.count w ≤ 1
    rw [hcount]
    split
    · exact Nat.le_refl 1
    · exact h.busy w
  idle w vm hl hs := by
    have hl : (p.vms.modify v f).lookup w = some vm := hl
    show leased'.count w + tasks.count w = 0
    rw [OrderedDict.lookup_modify] at hl
    split at hl
    · obtain ⟨old, -, rfl⟩ := Option.map_eq_some_iff.1 hl
      exact absurd hs (hf old)
    · rename_i hw
      rw [hcount, if_neg hw]
      exact h.idle w vm hl hs
  known w hw := by
    show w ∈ (p.vms.modify v f).keys
    rw [OrderedDict.keys_modify]
    rcases hknown w hw with rfl | hw
    · exact hv
    · exact h.known w hw

theorem startRebuild (h : p.Separate leased) (hv : v ∈ p.vms.keys)
    (hfree : leased.count v + p.rebuildTasks.count v = 0) : (p.startRebuild v).Separate leased := by
  refine h.modify (f := fun vm => { vm with state := .rebuilding }) (by simp) hv (fun w => ?_) fun w hw => ?_
  · rw [List.count_append, List.count_singleton]
    by_cases hw : w = v
    · subst hw
      rw [if_pos rfl]
      simp only [beq_self_eq_true, if_true]
      omega
    · rw [if_neg hw, if_neg (by simpa using Ne.symm hw)]
      rfl
  · rw [List.mem_append, List.mem_singleton] at hw
    tauto

theorem lease (h : p.Separate leased) {vm : Vm} (hl : p.vms.lookup v = some vm) (hs : vm.state = .ready) (now : ℚ)
    (sessionId protocol : Str) : (p.lease now sessionId protocol v).2.Separate (v :: leased) := by
  have hfree := h.idle v vm hl hs
  refine h.modify (f := fun vm => { vm with state := .leased, lastUsed := now }) (by simp)
    (p.vms.mem_keys_iff.2 ⟨vm, hl⟩) (fun w => ?_) fun w hw => ?_
  · by_cases hw : w = v
    · subst hw
      rw [if_pos rfl, List.count_cons_self]
      show leased.count w + 1 + p.rebuildTasks.count w = 1
      omega
    · rw [if_neg hw, List.count_cons_of_ne (Ne.symm hw)]
  · rw [List.mem_cons] at hw
    tauto

/-- A machine under a new name is ready. -/
theorem provisionVm (h : p.Separate leased) (hv : v ∉ p.vms.keys) (now : ℚ) :
    (p.provisionVm now v).Separate leased ∧
      ∃ vm, (p.provisionVm now v).vms.lookup v = some vm ∧ vm.state = .ready := by
  have hnone : ¬(v ∈ leased ∨ v ∈ p.rebuildTasks) := fun hw => hv (h.known v hw)
  rw [not_or] at hnone
  have hlookup : ∀ w vm, (p.provisionVm now v).vms.lookup w = some vm → w = v ∨ p.vms.lookup w = some vm := by
    intro w vm hl
    by_cases hw : w = v
    · exact .inl hw
    · unfold LibvirtPool.provisionVm LibvirtPool.setState at hl
      rw [OrderedDict.lookup_modify, if_neg hw, OrderedDict.lookup_insert, if_neg hw] at hl
      exact .inr hl
  refine ⟨⟨h.busy, fun w vm hl hs => ?_, fun w hw => ?_⟩, ?_⟩
  · rcases hlookup w vm hl with rfl | hold
    · show leased.count w + p.rebuildTasks.count w = 0
      rw [List.count_eq_zero.2 hnone.1, List.count_eq_zero.2 hnone.2]
    · exact h.idle w vm hold hs
  · have hw : w ∈ p.vms.keys := h.known w hw
    obtain ⟨vm, hvm⟩ := p.vms.mem_keys_iff.1 hw
    have hne : w ≠ v := fun heq => hv (heq ▸ hw)
    unfold LibvirtPool.provisionVm LibvirtPool.setState
    rw [OrderedDict.mem_keys_iff]
    refine ⟨vm, ?_⟩
    rw [OrderedDict.lookup_modify, if_neg hne, OrderedDict.lookup_insert, if_neg hne, hvm]
  · unfold LibvirtPool.provisionVm LibvirtPool.setState
    rw [OrderedDict.lookup_modify, if_pos rfl, OrderedDict.lookup_insert, if_pos rfl]
    exact ⟨_, rfl, rfl⟩

theorem releaseTarget {l : Lease} (h : p.Separate (l.vmId :: leased)) : (p.releaseTarget l).Separate leased := by
  have hbusy := h.busy l.vmId
  rw [List.count_cons_self] at hbusy
  unfold LibvirtPool.releaseTarget
  dsimp only
  rw [if_pos (h.known l.vmId (.inl (by simp)))]
  refine h.modify (f := fun vm => { vm with state := .rebuilding }) (by simp) (h.known l.vmId (.inl (by simp)))
    (fun w => ?_) fun w hw => ?_
  · show leased.count w + (p.rebuildTasks ++ [l.vmId]).count w = _
    rw [List.count_append, List.count_singleton]
    by_cases hw : w = l.vmId
    · subst hw
      rw [if_pos rfl]
      simp only [beq_self_eq_true, if_true]
      omega
    · rw [if_neg hw, if_neg (by simpa using Ne.symm hw), List.count_cons_of_ne (Ne.symm hw)]
      rfl
  · have hw : w ∈ leased ∨ w ∈ p.rebuildTasks ++ [l.vmId] := hw
    rw [List.mem_append, List.mem_singleton] at hw
    rw [List.mem_cons]
    tauto

theorem rebuildDone (h : p.Separate leased) {i : ℕ} (hi : p.rebuildTasks[i]? = some v) (now : ℚ) :
    (p.rebuildDone now i v).Separate leased := by
  obtain ⟨hlt, hget⟩ := List.getElem?_eq_some_iff.1 hi
  have hperm : (v :: p.rebuildTasks.eraseIdx i).Perm p.rebuildTasks := by
    rw [← hget]
    exact List.getElem_cons_eraseIdx_perm hlt
  have hcount : ∀ w, (p.rebuildTasks.eraseIdx i).count w ≤ p.rebuildTasks.count w := by
    intro w
    rw [← hperm.count_eq]
    exact List.count_le_count_cons
  have hfree : leased.count v + (p.rebuildTasks.eraseIdx i).count v = 0 := by
    have hbusy := h.busy v
    rw [← hperm.count_eq, List.count_cons_self] at hbusy
    omega
  refine ⟨fun w => ?_, fun w vm hl hs => ?_, fun w hw => ?_⟩
  · show leased.count w + (p.rebuildTasks.eraseIdx i).count w ≤ 1
    exact Nat.le_trans (Nat.add_le_add_left (hcount w) _) (h.busy w)
  · have hl : (p.vms.modify v _).lookup w = some vm := hl
    show leased.count w + (p.rebuildTasks.eraseIdx i).count w = 0
    rw [OrderedDict.lookup_modify] at hl
    split at hl
    · rename_i hw
      rw [hw]
      exact hfree
    · have hidle := h.idle w vm hl hs
      have := hcount w
      omega
  · show w ∈ (p.vms.modify v _).keys
    rw [OrderedDict.keys_modify]
    refine h.known w (hw.imp_right fun hw => ?_)
    exact List.mem_of_mem_eraseIdx hw

theorem checkVmRecycle (h : p.Separate leased) (now : ℚ) (v : Str) : (p.checkVmRecycle now v).Separate leased := by
  unfold LibvirtPool.checkVmRecycle
  split
  · rename_i vm hl
    split
    · rename_i hready
      exact h.startRebuild (p.vms.mem_keys_iff.2 ⟨vm, hl⟩) (h.idle v vm hl hready.1)
    · exact h
  · exact h

theorem recycle (h : p.Separate leased) (now : ℚ) : (p.recycle now).Separate leased := by
  unfold LibvirtPool.recycle
  generalize p.vms.keys = vs
  induction vs generalizing p with
  | nil => exact h
  | cons v vs ih => exact ih (h.checkVmRecycle now v)

theorem reserveTarget (h : p.Separate leased) (now : ℚ) (sessionId protocol : Str)
    (hnew : p.readyVms = [] → p.vms.length < p.maxVms → p.newVmId ∉ p.vms.keys) :
    (p.reserveTarget now sessionId protocol).2.Separate
      ((p.reserveTarget now sessionId protocol).1.toList.map Lease.vmId ++ leased) := by
  unfold LibvirtPool.reserveTarget
  split
  · rename_i vmId rest hready
    have hmem : vmId ∈ p.readyVms := by
      rw [hready]
      exact List.mem_cons_self
    simp only [LibvirtPool.readyVms, List.mem_map, List.mem_filter, decide_eq_true_eq] at hmem
    obtain ⟨⟨w, vm⟩, ⟨hvm, hs⟩, rfl⟩ := hmem
    exact h.lease (p.vms.lookup_eq_some_iff.2 hvm) hs now sessionId protocol
  · rename_i hready
    split
    · rename_i hroom
      obtain ⟨hp, vm, hl, hs⟩ := h.provisionVm (hnew hready hroom) now
      exact hp.lease hl hs now sessionId protocol
    · exact h

end LibvirtPool.Separate

namespace PoolSystem

variable {s : PoolSystem}

/-- No machine has two leases that are held, and none with such a lease is being rebuilt or on offer. -/
structure Exclusive (s : PoolSystem) : Prop where
  single : (s.held.map Lease.vmId).Nodup
  untouched : ∀ v ∈ s.pool.rebuildTasks, v ∉ s.held.map Lease.vmId
  notOffered : ∀ v ∈ s.pool.readyVms, v ∉ s.held.map Lease.vmId

/-- A reservation that makes a new machine makes it under a new name, and no failure is reported for the address of a
leased machine. -/
def Orderly (s : PoolSystem) : PoolStep → Prop
  | .reserveTarget .. => s.healthCheck = none → s.pool.readyVms = [] → s.pool.vms.length < s.pool.maxVms →
      s.pool.newVmId ∉ s.pool.vms.keys
  | .reportFailure host => ∀ e, s.pool.vmAt host = some e → e.2.state ≠ .leased
  | .releaseTarget _ => True
  | .rebuildDone .. => True
  | .recycle _ => True
  | .healthBegin => True
  | .healthLook => True
  | .healthAnswer _ => True
  | .healthEnd => True

structure Inv (s : PoolSystem) : Prop where
  separate : s.pool.Separate (s.held.map Lease.vmId)
  /-- While the hypervisor is asked about a machine, it stays ready. -/
  awaiting : ∀ v todo, s.healthCheck = some ⟨v :: todo, true⟩ → ∃ vm, s.pool.vms.lookup v = some vm ∧ vm.state = .ready

theorem Inv.exclusive (h : Inv s) : s.Exclusive where
  single := List.nodup_iff_count_le_one.2 fun v => by
    have := h.separate.busy v
    omega
  untouched v hv := by
    have hbusy := h.separate.busy v
    have hpos := List.count_pos_iff.2 hv
    exact List.count_eq_zero.1 (by omega)
  notOffered v hv := by
    simp only [LibvirtPool.readyVms, List.mem_map, List.mem_filter, decide_eq_true_eq] at hv
    obtain ⟨⟨w, vm⟩, ⟨hvm, hs⟩, rfl⟩ := hv
    have hidle := h.separate.idle w vm (s.pool.vms.lookup_eq_some_iff.2 hvm) hs
    exact List.count_eq_zero.1 (Nat.eq_zero_of_add_eq_zero_right hidle)

theorem inv_start {p : LibvirtPool} (hp : p.rebuildTasks = []) (now : ℚ) (domains : List (Str × Str)) :
    Inv (start p now domains) := by
  have htasks : (p.syncVms now domains).rebuildTasks = [] := by
    unfold LibvirtPool.syncVms
    split
    · rename_i hconn
      clear hconn
      induction domains generalizing p with
      | nil => exact hp
      | cons d ds ih =>
        refine ih ?_
        show (p.syncVm now d).rebuildTasks = []
        unfold LibvirtPool.syncVm
        split <;> exact hp
    · exact hp
  refine ⟨⟨fun v => ?_, fun v vm _ _ => ?_, fun v hv => ?_⟩, fun v todo h => ?_⟩
  · simp [start, htasks]
  · simp [start, htasks]
  · simp [start, htasks] at hv
  · cases h

private theorem inv_unlocked {p : LibvirtPool} {held : List Lease} (h : p.Separate (held.map Lease.vmId))
    (hc : s.healthCheck = none) : Inv ⟨p, held, s.healthCheck⟩ where
  separate := h
  awaiting v todo heq := by
    have heq : s.healthCheck = some ⟨v :: todo, true⟩ := heq
    rw [hc] at heq
    cases heq

theorem Inv.apply (h : Inv s) {t : PoolStep} (hg : s.Orderly t) : Inv (t.apply s) := by
  cases t with
  | reserveTarget now sessionId protocol =>
    show Inv (if s.healthCheck.isSome then s else s.reserveTarget now sessionId protocol)
    split
    · exact h
    · rename_i hc
      have hc : s.healthCheck = none := by simpa using hc
      refine inv_unlocked ?_ hc
      rw [List.map_append]
      exact h.separate.reserveTarget now sessionId protocol (hg hc)
  | releaseTarget i =>
    show Inv (match s.healthCheck, s.held[i]? with
      | none, some lease => { s with pool := s.pool.releaseTarget lease, held := s.held.eraseIdx i }
      | _, _ => s)
    split
    · rename_i lease hc hi
      obtain ⟨hlt, hget⟩ := List.getElem?_eq_some_iff.1 hi
      refine inv_unlocked (h.separate.perm ?_).releaseTarget hc
      rw [← hget, ← List.map_cons]
      exact ((List.getElem_cons_eraseIdx_perm hlt).map _).symm
    · exact h
  | reportFailure host =>
    -- the machine found is not leased, so nothing happens
    have hsame : s.pool.reportFailure host = s.pool := by
      unfold LibvirtPool.reportFailure
      split
      · rename_i vmId vm hat
        rw [if_neg (hg _ hat)]
      · rfl
    show Inv { s with pool := s.pool.reportFailure host }
    rw [hsame]
    exact h
  | rebuildDone now i =>
    show Inv (match s.healthCheck, s.pool.rebuildTasks[i]? with
      | none, some vmId => { s with pool := s.pool.rebuildDone now i vmId }
      | _, _ => s)
    split
    · rename_i vmId hc hi
      exact inv_unlocked (h.separate.rebuildDone hi now) hc
    · exact h
  | recycle now =>
    show Inv (if s.healthCheck.isSome then s else { s with pool := s.pool.recycle now })
    split
    · exact h
    · rename_i hc
      exact inv_unlocked (h.separate.recycle now) (by simpa using hc)
  | healthBegin =>
    show Inv (if s.healthCheck.isSome || !s.pool.conn then s
      else { s with healthCheck := some ⟨s.pool.vms.keys, false⟩ })
    split
    · exact h
    · exact ⟨h.separate, fun v todo heq => by simp at heq⟩
  | healthLook =>
    show Inv (match s.healthCheck with
      | some ⟨vmId :: todo, false⟩ => s.healthLook ⟨vmId :: todo, false⟩ vmId todo
      | _ => s)
    split
    · rename_i vmId todo hc
      unfold healthLook
      split
      · exact ⟨h.separate, fun v todo heq => by cases heq⟩
      · rename_i hready
        simp only [not_or, not_not] at hready
        obtain ⟨vm, hl, hs⟩ := Option.map_eq_some_iff.1 hready.1
        refine ⟨h.separate, fun v todo heq => ?_⟩
        cases heq
        exact ⟨vm, hl, hs⟩
    · exact h
  | healthAnswer active =>
    show Inv (match s.healthCheck with
      | some ⟨vmId :: todo, true⟩ => s.healthAnswer active vmId todo
      | _ => s)
    split
    · rename_i vmId todo hc
      obtain ⟨vm, hl, hs⟩ := h.awaiting vmId todo hc
      refine ⟨?_, fun v todo heq => by cases heq⟩
      show LibvirtPool.Separate (if active then s.pool else s.pool.startRebuild vmId) _
      split
      · exact h.separate
      · exact h.separate.startRebuild (s.pool.vms.mem_keys_iff.2 ⟨vm, hl⟩) (h.separate.idle vmId vm hl hs)
    · exact h
  | healthEnd =>
    show Inv (match s.healthCheck with
      | some ⟨[], _⟩ => { s with healthCheck := none }
      | _ => s)
    split
    · exact ⟨h.separate, fun v todo heq => by cases heq⟩
    · exact h

/-- In an orderly run from a synchronised pool, leases and rebuilds exclude each other in every state. -/
theorem exclusive_run {p : LibvirtPool} (hp : p.rebuildTasks = []) (now : ℚ) (domains : List (Str × Str))
    (steps : List PoolStep) (hG : Meets PoolStep.apply Orderly (start p now domains) steps) :
    ∀ ts, ts <+: steps → (run PoolStep.apply (start p now domains) ts).Exclusive := by
  intro ts hts
  have hinv := invariant_of_steps (I := Inv) (fun s t h hg => h.apply hg) (inv_start hp now domains) (hG.initial hts)
  exact hinv.exclusive

/-- A machine that is made, leased, released, rebuilt and leased again. -/
theorem exclusive_run_release :
    (run PoolStep.apply (start {} 0 []) [.reserveTarget 0 "a".toList "ssh".toList, .releaseTarget 0,
      .rebuildDone 1 0, .reserveTarget 2 "b".toList "ssh".toList]).Exclusive := by
  refine exclusive_run (p := {}) rfl 0 [] [.reserveTarget 0 "a".toList "ssh".toList, .releaseTarget 0,
    .rebuildDone 1 0, .reserveTarget 2 "b".toList "ssh".toList] ⟨?_, trivial, trivial, ?_, trivial⟩ _
    (List.prefix_refl _)
  · exact fun _ _ _ => List.not_mem_nil
  · exact fun _ h => absurd h (by decide)

/-- A failure that is reported for a leased machine has it rebuilt and handed out again. -/
theorem not_exclusive_reportFailure :
    ¬(run PoolStep.apply (start {} 0 []) [.reserveTarget 0 "a".toList "ssh".toList,
      .reportFailure "192.168.1.40".toList, .rebuildDone 1 0,
      .reserveTarget 2 "b".toList "ssh".toList]).Exclusive := by
  intro h
  exact absurd h.single (by decide)

/-- The name of a new machine may be that of a leased one. -/
theorem not_exclusive_newVmId :
    ¬(run PoolStep.apply (start {} 0 [("debian18.04-2".toList, "10.0.0.2".toList)])
      [.reserveTarget 0 "a".toList "ssh".toList, .reserveTarget 1 "b".toList "ssh".toList]).Exclusive := by
  intro h
  exact absurd h.single (by decide)

end PoolSystem

end Cyanide
