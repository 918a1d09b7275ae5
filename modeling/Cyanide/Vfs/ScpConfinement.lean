import Cyanide.Lib.Location
import Cyanide.Vfs.ScpStream

/-!
# Where a sink writes

A sink joins the names in the records to its base, and checks none of them.  `sink_confined` says that a session stays
within its destination when no name is absolute or has a component `..`, whatever the order and the nesting of the
records, but for the directories above the destination, which `mkdir_p` makes when they are missing.
-/

namespace Cyanide

open PosixPath PyText Transition

namespace FakeFilesystem

variable {s : FakeFilesystem}

@[simp] theorem location_resolve (path : Str) : location (resolve path) = location path := by
  by_cases hne : path = []
  · subst hne
    decide
  by_cases hhead : path.head? = some '/'
  · obtain ⟨p, hcomps, hp⟩ := resolve_rooted_comps hhead
    rw [hp, location_str, location, hcomps]
  · obtain ⟨k, p, hcomps, hp⟩ := resolve_relative hne hhead
    rw [hp, location_relStr, location_eq hcomps]

/-- Leading dots and names, walked from the root, lead to the names so far. -/
private theorem location_walk_dots (k : ℕ) (p : List Name) {cur x : Str} (hcur : location cur = [])
    (hx : x ∈ walkFrom cur (List.replicate k ['.', '.'] ++ p.map Name.val)) : location x <+: p.map Name.val := by
  have hnames : ∀ (p q : List Name) (cur : Str), location cur = q.map Name.val →
      ∀ x ∈ walkFrom cur (p.map Name.val), location x <+: (q ++ p).map Name.val := by
    intro p
    induction p with
    | nil => simp [walkFrom]
    | cons n p ih =>
      intro q cur hcur x hx
      have hjoin : location (join cur n.1) = (q ++ [n]).map Name.val := by
        rw [location_join_comp cur n.slash_notMem, hcur]
        simp [pushComp, n.ne_nil, n.ne_dot, n.ne_dotdot]
      rw [List.map_cons, walkFrom, List.mem_cons] at hx
      rcases hx with rfl | hx
      · rw [hjoin]
        exact ⟨p.map Name.val, by simp⟩
      · simpa using ih (q ++ [n]) (join cur n.1) hjoin x hx
  induction k generalizing cur with
  | zero => simpa using hnames p [] cur hcur x hx
  | succ k ih =>
    have hjoin : location (join cur ['.', '.']) = [] := by
      rw [location_join_comp cur (by decide), hcur]
      decide
    rw [List.replicate_succ, List.cons_append, walkFrom, List.mem_cons] at hx
    rcases hx with rfl | hx
    · rw [hjoin]
      exact List.nil_prefix
    · exact ih hjoin hx

/-- `mkdir_p` walks over the paths above its end. -/
theorem location_walk {path x : Str} (hx : x ∈ walkFrom ['/'] (mkdirParts path)) : location x <+: location path := by
  rw [← location_resolve path]
  rcases resolve_cases path with ⟨p, hp⟩ | ⟨k, p, hp⟩
  · rw [mkdirParts_of_str hp] at hx
    rw [hp, location_str]
    exact location_walk_dots 0 p rfl hx
  · rw [hp, location_relStr]
    by_cases hkp : k = 0 ∧ p = []
    · obtain ⟨rfl, rfl⟩ := hkp
      have hparts : mkdirParts path = [['.']] := by
        rw [mkdirParts, hp]
        decide
      rw [hparts] at hx
      obtain rfl : x = join ['/'] ['.'] := by simpa [walkFrom] using hx
      decide
    · have hsplit : mkdirParts path = List.replicate k ['.', '.'] ++ p.map Name.val := by
        rw [mkdirParts, hp, relStr, if_neg hkp,
          List.splitOn_intercalate '/' (fun c hc => (mem_relComps hc).2) (by simpa using hkp)]
        exact List.filter_eq_self.2 fun c hc => by simpa using (mem_relComps hc).1
      rw [hsplit] at hx
      exact location_walk_dots k p rfl hx

/-- The operation creates or overwrites what is at `q`. -/
def Writes (s : FakeFilesystem) (q : Str) : Op → Prop
  | .mkfile path .. => resolve path = q ∧ s.HasParent q
  | .mkdirP path .. => q ∈ walkFrom ['/'] (mkdirParts path) ∧ (s.pathExists q = false ∨ s.isFile q = true)
  | _ => False

/-- A path that an operation with an end in `d` may write: `d` or below, or above as a directory. -/
def Allowed (d q : Str) (o : Op) : Prop :=
  location d <+: location q ∨ location q <+: location d ∧ ∃ path owner group perm, o = .mkdirP path owner group perm

/-- The operation writes a file or makes a directory at the end of a path that stays in `d`. -/
def EndsIn (d : Str) : Op → Prop
  | .mkfile path .. => location d <+: location path
  | .mkdirP path .. => location d <+: location path
  | _ => False

theorem EndsIn.allowed {d q : Str} {o : Op} (h : EndsIn d o) (hq : s.Writes q o) : Allowed d q o := by
  cases o with
  | mkfile path content owner group perm =>
    obtain ⟨rfl, -⟩ := hq
    exact .inl (by rwa [location_resolve])
  | mkdirP path owner group perm =>
    rcases List.prefix_or_prefix_of_prefix h (location_walk hq.1) with h | h
    · exact .inl h
    · exact .inr ⟨h, _, _, _, _, rfl⟩
  | _ => cases h

/-- What is neither below `d` nor above it stays as it is. -/
theorem EndsIn.layer_apply {d q : Str} {o : Op} (h : EndsIn d o) (hbelow : ¬location d <+: location q)
    (habove : ¬location q <+: location d) : (o.apply s).layer q = s.layer q := by
  cases o with
  | mkfile path content owner group perm =>
    refine (layer_mkfile ..).trans (if_neg ?_)
    rintro ⟨rfl, -⟩
    exact hbelow (by rwa [location_resolve])
  | mkdirP path owner group perm =>
    refine layer_foldl_mkdirStep_of_notMem _ _ _ _ _ fun hq => ?_
    rcases List.prefix_or_prefix_of_prefix h (location_walk hq) with h | h
    · exact hbelow h
    · exact habove h
  | _ => cases h

end FakeFilesystem

namespace ScpHandler

variable (U : Unicode)

/-- The name in the header of a file or a directory. -/
def headerName (header : Str) : Option Str :=
  match copyHeader U header with
  | some (_, _, filename) => some filename
  | none => (dirHeader U header).map Prod.snd

/-- The base and the stack of a session into `d` are within it, and so is what it has written since the filesystem
was `s₀`. -/
structure Confined (U : Unicode) (d : Str) (s₀ : FakeFilesystem) (R : SinkRun) : Prop where
  base : location d <+: location R.sink.currentBase
  stack : ∀ b ∈ R.sink.dirStack, location d <+: location b
  written : ∀ r ∈ R.rounds, ∀ o ∈ sinkOps U r.sink r.honeypot r.record, FakeFilesystem.EndsIn d o
  outside : ∀ q, ¬location d <+: location q → ¬location q <+: location d → R.honeypot.fs.layer q = s₀.layer q

theorem confined_start (d username : Str) (P : Honeypot) (input : ShortReads UInt8) :
    Confined U d P.fs (.start username d P input) where
  base := List.prefix_rfl
  stack := by simp [SinkRun.start, startSink]
  written := by simp [SinkRun.start]
  outside _ _ _ := rfl

section Steps

variable {U} {d : Str} {s : ScpSink} {P : Honeypot} {r : ScpRecord}

/-- A record with an inward name writes in the destination. -/
private theorem endsIn_of_inward (hbase : location d <+: location s.currentBase)
    (hname : ∀ name, headerName U r.header = some name → Inward name) {o : Op} (ho : o ∈ sinkOps U s P r) :
    FakeFilesystem.EndsIn d o := by
  unfold sinkOps at ho
  split_ifs at ho with hexit
  · cases ho
  split at ho
  · -- a file: the base itself, or a name in it
    split at ho
    · cases ho
    · rename_i mode size filename hcopy
      obtain rfl := List.mem_singleton.1 ho
      have hinward : Inward filename := hname filename (by simp [headerName, hcopy])
      show location d <+: location (targetPath P.fs s.currentBase filename)
      unfold targetPath
      split_ifs
      · exact hbase.trans (hinward.location_prefix _)
      · exact hbase
  · rename_i hhead
    split at ho
    · cases ho
    · rename_i mode dirname hdir
      obtain rfl := List.mem_singleton.1 ho
      have hcopy : copyHeader U r.header = none := by
        rw [copyHeader, parseHeader_head U (by rw [hhead]; decide)]
        rfl
      have hinward : Inward dirname := hname dirname (by simp [headerName, hcopy, hdir])
      exact hbase.trans (hinward.location_prefix _)
  · cases ho

/-- A record with an inward name keeps the base and the stack within the destination. -/
private theorem within_sinkRecord (hbase : location d <+: location s.currentBase)
    (hstack : ∀ b ∈ s.dirStack, location d <+: location b)
    (hname : ∀ name, headerName U r.header = some name → Inward name) :
    location d <+: location (sinkRecord U s P r).2.1.currentBase ∧
      ∀ b ∈ (sinkRecord U s P r).2.1.dirStack, location d <+: location b := by
  unfold sinkRecord
  split_ifs with hexit
  · exact ⟨hbase, hstack⟩
  split
  · exact ⟨hbase, hstack⟩
  · exact ⟨hbase, hstack⟩
  · rename_i hhead
    refine ⟨?_, by simpa using ⟨hbase, hstack⟩⟩
    dsimp only
    unfold handleDirCommand
    cases hdir : dirHeader U r.header with
    | none => exact hbase
    | some groups =>
      have hcopy : copyHeader U r.header = none := by
        rw [copyHeader, parseHeader_head U (by rw [hhead]; decide)]
        rfl
      have hinward : Inward groups.2 := hname groups.2 (by simp [headerName, hcopy, hdir])
      exact hbase.trans (hinward.location_prefix _)
  · refine ⟨?_, fun b hb => hstack b (List.mem_of_mem_tail hb)⟩
    dsimp only [handleEndDir]
    cases hs : s.dirStack with
    | nil => exact hbase
    | cons b stack => exact hstack b (by simp [hs])
  · exact ⟨hbase, hstack⟩
  · exact ⟨hbase, hstack⟩

theorem Confined.next {s₀ : FakeFilesystem} {R : SinkRun} (h : Confined U d s₀ R)
    (hname : ∀ r ∈ (R.next U).rounds, ∀ name, headerName U r.record.header = some name → Inward name) :
    Confined U d s₀ (R.next U) := by
  unfold SinkRun.next at hname ⊢
  split_ifs at hname ⊢ with hexit
  · exact h
  have hrecord := hname ⟨R.sink, R.honeypot, (readRecord U R.input).1⟩ (by simp)
  have hends := fun o => endsIn_of_inward (o := o) (P := R.honeypot) h.base hrecord
  obtain ⟨hbase, hstack⟩ := within_sinkRecord (P := R.honeypot) h.base h.stack hrecord
  refine ⟨hbase, hstack, fun r hr o ho => ?_, fun q hbelow habove => ?_⟩
  · rcases List.mem_append.1 hr with hr | hr
    · exact h.written r hr o ho
    · obtain rfl := List.mem_singleton.1 hr
      exact hends o ho
  · have hstay : ∀ (ops : List Op) (s : FakeFilesystem), (∀ o ∈ ops, FakeFilesystem.EndsIn d o) →
        (run Op.apply s ops).layer q = s.layer q := by
      intro ops
      induction ops with
      | nil => exact fun _ _ => rfl
      | cons o ops ih =>
        intro s hops
        rw [List.forall_mem_cons] at hops
        exact (ih _ hops.2).trans (hops.1.layer_apply hbelow habove)
    refine Eq.trans ?_ (h.outside q hbelow habove)
    rw [sinkRecord_eq_run]
    exact hstay _ _ hends

theorem rounds_prefix_next (R : SinkRun) : R.rounds <+: (R.next U).rounds := by
  unfold SinkRun.next
  split_ifs
  · exact List.prefix_rfl
  · exact List.prefix_append _ _

theorem Confined.iterate {s₀ : FakeFilesystem} {R : SinkRun} (h : Confined U d s₀ R) (n : ℕ)
    (hname : ∀ r ∈ ((SinkRun.next U)^[n] R).rounds, ∀ name, headerName U r.record.header = some name → Inward name) :
    Confined U d s₀ ((SinkRun.next U)^[n] R) := by
  induction n with
  | zero => exact h
  | succ n ih =>
    rw [Function.iterate_succ_apply'] at hname ⊢
    exact (ih fun r hr => hname r ((rounds_prefix_next _).subset hr)).next hname

end Steps

/-- The names in the records that a session has read. -/
def namesRead (R : SinkRun) : List Str := R.rounds.filterMap fun r => headerName U r.record.header

/-- A session whose names are inward writes its destination and what is below it, and makes the directories above;
everything else stays as it was. -/
theorem sink_confined (username d : Str) (P : Honeypot) (input : ShortReads UInt8)
    (hname : ∀ name ∈ namesRead U (processSink U username d P input), Inward name) :
    (∀ r ∈ (processSink U username d P input).rounds, ∀ o ∈ sinkOps U r.sink r.honeypot r.record, ∀ q,
        r.honeypot.fs.Writes q o → FakeFilesystem.Allowed d q o) ∧
      ∀ q, ¬location d <+: location q → ¬location q <+: location d →
        (processSink U username d P input).honeypot.fs.layer q = P.fs.layer q := by
  have hconfined := (confined_start U d username P input).iterate _ fun r hr name hn =>
    hname name (List.mem_filterMap.2 ⟨r, hr, hn⟩)
  exact ⟨fun r hr o ho q hq => (hconfined.written r hr o ho).allowed hq, hconfined.outside⟩

/-- An empty filesystem with the directory `/a`. -/
def withA : Honeypot := ⟨bare.mkdirP "/a".toList, []⟩

/-- Input in ASCII of which a read returns at most three bytes. -/
def inThrees (text : Str) : ShortReads UInt8 := ⟨text.map fun c => UInt8.ofNat c.toNat, fun _ => 3⟩

/-- A file `f` for the directory `/a`. -/
theorem sink_confined_file :
    (processSink ascii root "/a".toList withA (inThrees "C0644 1 f\nx\x00".toList)).honeypot.fs.layer "/b".toList =
      withA.fs.layer "/b".toList :=
  (sink_confined ascii root "/a".toList withA (inThrees "C0644 1 f\nx\x00".toList) (by decide +kernel)).2 "/b".toList
    (by decide) (by decide)

/-- A file `../x` for the directory `/a`. -/
theorem not_confined_dotdot :
    ¬location "/a".toList <+: location "/x".toList ∧ withA.fs.pathExists "/x".toList = false ∧
      (processSink ascii root "/a".toList withA (inThrees "C0644 1 ../x\nx\x00".toList)).honeypot.fs.pathExists
        "/x".toList = true := by
  decide +kernel

end ScpHandler

end Cyanide
