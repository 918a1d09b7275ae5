import Cyanide.Shell.Walkers
import Cyanide.Vfs.Copy

/-!
# Walks through tidy filesystems

In a tidy filesystem whose entries have regular types, the children that a node reports are those of the tree, so that
`find`, `grep -r` and the SCP source follow `preorder` and `ls -R` follows `levelOrder` on the directories that it
shows.
-/

namespace Cyanide

open PosixPath PyText Transition TreeWalk PathTree

/-- A tidy filesystem in which every existing path is either a directory or a file. -/
structure Walkable (s : FakeFilesystem) : Prop where
  tidy : FakeFilesystem.Tidy s
  regular : s.Regular

def toName (c : Str) : Option Name := if h : IsName c then some ⟨c, h⟩ else none

theorem filterMap_toName (ns : List Name) : (ns.map Name.val).filterMap toName = ns := by
  rw [List.filterMap_map]
  have hname : toName ∘ Name.val = some := by
    funext n
    exact dif_pos n.isName
  rw [hname, List.filterMap_some]

namespace FakeFilesystem

variable {s : FakeFilesystem} {p : List Name}

/-- The names of the entries of a directory. -/
def kids (s : FakeFilesystem) (p : List Name) : List Name := (s.listDir (str p)).filterMap toName

def nodeAt (s : FakeFilesystem) (q : List Name) : Node := (s.getNode (str q)).getD (virtualFile s.now [] {})

theorem tree_ne_none : s.tree p ≠ none ↔ s.pathExists (str p) = true := by
  rw [tree, ne_eq, entry_eq_none, Bool.not_eq_false]

theorem Tidy.dir_above (h : Tidy s) {n : Name} (hx : s.tree (p ++ [n]) ≠ none) : s.isDir (str p) = true := by
  have := (h.closed _ (tree_ne_none.1 hx) (by simp)).2
  rwa [resolve_str, dirname_str_concat] at this

theorem kids_of_not_dir (hd : s.isDir (str p) = false) : s.listDir (str p) = [] ∧ s.kids p = [] := by
  have hnil : s.listDir (str p) = [] := by rw [listDir_eq, if_neg (by simp [hd])]
  exact ⟨hnil, by rw [kids, hnil]; rfl⟩

theorem Tidy.listDir_kids (h : Tidy s) (p : List Name) :
    s.listDir (str p) = (s.kids p).map Name.val ∧ (s.kids p).Nodup ∧ ∀ n, n ∈ s.kids p ↔ s.tree (p ++ [n]) ≠ none := by
  by_cases hd : s.isDir (str p) = true
  · obtain ⟨ns, hlist, hnodup, hmem⟩ := h.rooted.listDir_children (entry_eq_dir.2 hd)
    have hkids : s.kids p = ns := by rw [kids, hlist, filterMap_toName]
    rw [hkids]
    exact ⟨hlist, hnodup, hmem⟩
  · obtain ⟨hnil, hkids⟩ := kids_of_not_dir (Bool.not_eq_true _ ▸ hd)
    rw [hkids, hnil]
    refine ⟨rfl, List.nodup_nil, fun n => ?_⟩
    simp only [List.not_mem_nil, false_iff, not_not]
    by_contra hx
    exact hd (h.dir_above hx)

theorem Tidy.lists_kids (h : Tidy s) : Lists s.kids s.tree where
  nodup p _ := (h.listDir_kids p).2.1
  mem p _ := (h.listDir_kids p).2.2

/-! ### Nodes -/

theorem getNode_name {path : Str} {node : Node} (h : s.getNode path = some node) :
    node.name = basename (resolve path) ∨ node.name = nameOf (resolve path) := by
  unfold getNode at h
  dsimp only at h
  split at h
  · cases h
  split at h
  · rw [← Option.some.inj h]
    split <;> exact .inl rfl
  split at h
  · rw [← Option.some.inj h]
    exact .inl rfl
  split at h
  · rw [← Option.some.inj h]
    split
    · exact .inr rfl
    · exact .inl rfl
  split at h
  · rw [← Option.some.inj h]
    exact .inr rfl
  split at h
  · rw [← Option.some.inj h]
    exact .inl rfl
  · cases h

end FakeFilesystem

namespace Walkable

open FakeFilesystem

variable {s : FakeFilesystem} (h : Walkable s) {p : List Name}

include h

theorem getNode_str (hp : s.tree p ≠ none) : s.getNode (str p) = some (s.nodeAt p) := by
  have hagree := (s.agree_iff (str p)).2 (h.regular (str p))
  have hx := tree_ne_none.1 hp
  cases hn : s.getNode (str p) with
  | none => rw [hagree.2.1.1 hn] at hx; cases hx
  | some node => rw [nodeAt, hn]; rfl

theorem nodeAt_isDir (hp : s.tree p ≠ none) : (s.nodeAt p).isDir = s.isDir (str p) :=
  ((s.agree_iff (str p)).2 (h.regular (str p))).2.2 _ (h.getNode_str hp)

theorem nodeAt_name {n : Name} (hp : s.tree (p ++ [n]) ≠ none) : (s.nodeAt (p ++ [n])).name = n.1 := by
  have hbase := basename_str_concat p n
  rcases getNode_name (h.getNode_str hp) with hn | hn <;> rw [hn, resolve_str]
  · exact hbase
  · rw [nameOf, hbase, if_neg n.ne_nil]

/-- An existing path that is no directory is a file. -/
theorem isFile_iff (hp : s.tree p ≠ none) : s.isFile (str p) = true ↔ s.isDir (str p) = false := by
  have hxor := ((s.agree_iff (str p)).2 (h.regular (str p))).1.1 (tree_ne_none.1 hp)
  rcases hxor with ⟨hd, hf⟩ | ⟨hf, hd⟩
  · simp [hd, Bool.not_eq_true _ ▸ hf]
  · simp [hf, Bool.not_eq_true _ ▸ hd]

theorem children_str (p : List Name) :
    s.children (str p) = (s.kids p).map fun n => (n.1, s.nodeAt (p ++ [n])) := by
  obtain ⟨hlist, -, hmem⟩ := h.tidy.listDir_kids p
  rw [children, hlist, List.filterMap_map, ← List.filterMap_eq_map]
  refine List.filterMap_congr fun n hn => ?_
  show (s.getNode (join (str p) n.1)).map _ = _
  rw [join_str, h.getNode_str ((hmem n).1 hn)]
  rfl

/-! ### Depth first -/

theorem closed : Closed s.tree := h.tidy.rooted.tree_closed

omit h in
private theorem replaceFrom_flat (p : List Name) : replaceFrom "//".toList ['/'] 0 (flat p) = flat p := by
  induction p with
  | nil => rfl
  | cons n p ih =>
    obtain ⟨c, cs, hn, hc⟩ := n.exists_cons
    rw [flat_cons, replaceFrom, if_neg, replaceFrom_append_of_notMem rfl n.slash_notMem, ih]
    simp [hn, Ne.symm hc]

omit h in
theorem childPath_str (p : List Name) (n : Name) : childPath (str p) n.1 = str (p ++ [n]) := by
  unfold childPath replace
  rcases List.eq_nil_or_concat p with rfl | ⟨q, m, rfl⟩
  · have hname := replaceFrom_append_of_notMem (show "//".toList.head? = some '/' from rfl) n.slash_notMem ['/'] []
    rw [List.append_nil] at hname
    show ['/'] ++ replaceFrom "//".toList ['/'] 0 n.1 = _
    rw [hname]
    simp [str, replaceFrom]
  · have hflat : str (q.concat m) ++ '/' :: n.1 = flat (q.concat m ++ [n]) := by
      rw [str_of_ne_nil (by simp), flat_append]
      simp
    rw [hflat, replaceFrom_flat, str_of_ne_nil (by simp)]

omit h in
private theorem mapM_some {α β : Type} {f : α → Option β} {g : α → β} {l : List α} (hf : ∀ a ∈ l, f a = some (g a)) :
    l.mapM f = some (l.map g) := by
  induction l with
  | nil => rfl
  | cons a l ih =>
    rw [List.mapM_cons, hf a (by simp), ih fun b hb => hf b (by simp [hb])]
    rfl

/-- The children of a directory, given to a function of the name of the node. -/
private theorem mapM_children {β : Type} (p : List Name) {f : Str → Option β} {g : Name → β}
    (hf : ∀ n ∈ s.kids p, f n.1 = some (g n)) :
    ((s.children (str p)).mapM fun child => f child.2.name) = some ((s.kids p).map g) := by
  rw [h.children_str, List.mapM_map]
  refine mapM_some fun n hn => ?_
  show f (s.nodeAt (p ++ [n])).name = _
  rw [h.nodeAt_name (((h.tidy.listDir_kids p).2.2 n).1 hn)]
  exact hf n hn

private theorem any_isDir (hp : s.tree p ≠ none) : (s.getNode (str p)).any Node.isDir = s.isDir (str p) := by
  rw [h.getNode_str hp, Option.any_some, h.nodeAt_isDir hp]

/-- `find` goes through the tree depth first. -/
theorem walk_eq {depth : ℕ} (hp : s.tree p ≠ none) (hd : Shallow s.tree p depth) :
    walk s depth (str p) = some ((preorder s.kids depth p).map str) := by
  induction depth generalizing p with
  | zero => exact (hd.ne_zero hp).elim
  | succ depth ih =>
    rw [walk, h.any_isDir hp, preorder]
    split
    · rw [resolve_str]
      have hfound := h.mapM_children p (f := fun name => walk s depth (childPath (str p) name)) fun n hn => by
        rw [childPath_str]
        exact ih (((h.tidy.listDir_kids p).2.2 n).1 hn) (hd.child n)
      simp only [hfound, Option.bind_eq_bind, Option.bind_some]
      rw [List.map_cons, List.map_flatMap, List.flatMap_def]
      rfl
    · rename_i hdir
      rw [Bool.not_eq_true] at hdir
      rw [(kids_of_not_dir hdir).2]
      rfl

/-- `grep -r` goes through the tree depth first. -/
theorem recursiveVisits_eq {depth : ℕ} (hp : s.tree p ≠ none) (hd : Shallow s.tree p depth) :
    recursiveVisits s depth (str p) = some ((preorder s.kids depth p).map str) := by
  induction depth generalizing p with
  | zero => exact (hd.ne_zero hp).elim
  | succ depth ih =>
    rw [recursiveVisits, h.any_isDir hp, preorder]
    split
    · rw [resolve_str]
      have hfound := h.mapM_children p
        (f := fun name =>
          let childPath := childPath (str p) name
          if s.isFile childPath then some [childPath]
          else if s.isDir childPath then recursiveVisits s depth childPath else some [])
        (g := fun n => (preorder s.kids depth (p ++ [n])).map str) fun n hn => by
        have hx := ((h.tidy.listDir_kids p).2.2 n).1 hn
        dsimp only
        rw [childPath_str]
        split
        · rename_i hf
          obtain ⟨depth, rfl⟩ : ∃ d, depth = d + 1 := by
            cases depth with
            | zero => exact ((hd.child n).ne_zero hx).elim
            | succ d => exact ⟨d, rfl⟩
          rw [preorder, (kids_of_not_dir ((h.isFile_iff hx).1 hf)).2]
          rfl
        · rename_i hf
          rw [h.isFile_iff hx, Bool.not_eq_false] at hf
          rw [if_pos hf]
          exact ih hx (hd.child n)
      simp only [hfound, Option.bind_eq_bind, Option.bind_some]
      rw [List.map_cons, List.map_flatMap, List.flatMap_def]
      rfl
    · rename_i hdir
      rw [Bool.not_eq_true] at hdir
      rw [(kids_of_not_dir hdir).2]
      rfl

/-! ### Level by level -/

/-- The existing paths below `p`, from there, with names that `ls` shows. -/
def shownTree (s : FakeFilesystem) (showAll : Bool) (p : List Name) : PathTree Name Entry :=
  prune (shown showAll) (s.tree.sub p)

def shownKids (s : FakeFilesystem) (showAll : Bool) (p r : List Name) : List Name :=
  (s.kids (p ++ r)).filter (shown showAll)

/-- Of the shown paths, the start and the directories. -/
def shownDirs (s : FakeFilesystem) (showAll : Bool) (p : List Name) : PathTree Name Entry :=
  fun r => if r = [] ∨ s.isDir (str (p ++ r)) = true then shownTree s showAll p r else none

def shownDirKids (s : FakeFilesystem) (showAll : Bool) (p r : List Name) : List Name :=
  (shownKids s showAll p r).filter fun n => s.isDir (str (p ++ (r ++ [n])))

omit h in
theorem shownTree_ne_none {showAll : Bool} {r : List Name} :
    shownTree s showAll p r ≠ none ↔ (∀ n ∈ r, shown showAll n = true) ∧ s.pathExists (str (p ++ r)) = true := by
  rw [shownTree, prune_ne_none]
  exact and_congr_right fun _ => tree_ne_none

omit h in
theorem shownDirs_ne_none {showAll : Bool} {r : List Name} :
    shownDirs s showAll p r ≠ none ↔ (r = [] ∨ s.isDir (str (p ++ r)) = true) ∧ shownTree s showAll p r ≠ none := by
  unfold shownDirs
  split
  · rename_i hr
    exact ⟨fun hx => ⟨hr, hx⟩, And.right⟩
  · rename_i hr
    simp [hr]

theorem lists_shownKids (showAll : Bool) (p : List Name) : Lists (shownKids s showAll p) (shownTree s showAll p) := by
  refine Lists.prune (f := fun r => s.kids (p ++ r)) ⟨fun r hr => ?_, fun r hr n => ?_⟩ _
  · exact (h.tidy.listDir_kids (p ++ r)).2.1
  · rw [(h.tidy.listDir_kids (p ++ r)).2.2, List.append_assoc]
    rfl

theorem lists_shownDirKids (showAll : Bool) (p : List Name) :
    Lists (shownDirKids s showAll p) (shownDirs s showAll p) := by
  have hk := h.lists_shownKids showAll p
  constructor
  · intro r hr
    exact (hk.nodup r (shownDirs_ne_none.1 hr).2).filter _
  · intro r hr n
    rw [shownDirKids, List.mem_filter, hk.mem r (shownDirs_ne_none.1 hr).2, shownDirs_ne_none]
    simp [and_comm]

/-- A directory with something in it is a directory that is shown. -/
theorem shownDirs_above {showAll : Bool} {r : List Name} {n : Name} (hx : shownTree s showAll p (r ++ [n]) ≠ none) :
    shownDirs s showAll p r ≠ none := by
  have hclosed := closed_prune (h.closed.sub p) (shown showAll)
  refine shownDirs_ne_none.2 ⟨.inr ?_, hclosed r n hx⟩
  have hx := (prune_ne_none.1 hx).2
  rw [PathTree.sub, ← List.append_assoc] at hx
  exact h.tidy.dir_above hx

theorem closed_shownDirs (showAll : Bool) (p : List Name) : Closed (shownDirs s showAll p) := by
  intro r n hx
  exact h.shownDirs_above (shownDirs_ne_none.1 hx).2

theorem lsQueued_eq (showAll : Bool) (p r : List Name) :
    lsQueued s showAll (str (p ++ r), str (p ++ r)) =
      (shownDirKids s showAll p r).map fun n => (str (p ++ (r ++ [n])), str (p ++ (r ++ [n]))) := by
  rw [lsQueued, h.children_str, List.filter_map, List.map_map, shownDirKids, shownKids, List.filter_filter]
  have hfilter : ∀ n ∈ s.kids (p ++ r), (((fun (child : Str × Node) =>
      (showAll || decide (child.1.head? ≠ some '.')) && child.2.isDir) ∘
        fun n : Name => (n.1, s.nodeAt (p ++ r ++ [n]))) n) = (s.isDir (str (p ++ (r ++ [n]))) && shown showAll n) := by
    intro n hn
    have hx := ((h.tidy.listDir_kids (p ++ r)).2.2 n).1 hn
    show (_ && (s.nodeAt (p ++ r ++ [n])).isDir) = _
    rw [h.nodeAt_isDir hx, List.append_assoc, Bool.and_comm]
    rfl
  rw [List.filter_congr hfilter]
  refine List.map_congr_left fun n _ => ?_
  show (join _ n.1, resolve (join _ n.1)) = _
  rw [join_str, resolve_str, List.append_assoc]

theorem lsOrder_eq (showAll : Bool) (p : List Name) (rounds : ℕ) (queue : List (List Name)) :
    lsOrder s showAll rounds (queue.map fun r => (str (p ++ r), str (p ++ r))) =
      (levelOrder (shownDirKids s showAll p) rounds queue).map
        (List.map fun r => (str (p ++ r), str (p ++ r))) := by
  induction rounds generalizing queue with
  | zero => cases queue <;> rfl
  | succ rounds ih =>
    cases queue with
    | nil => rfl
    | cons r queue =>
      have hqueue : (queue.map fun r => (str (p ++ r), str (p ++ r))) ++
          lsQueued s showAll (str (p ++ r), str (p ++ r)) =
          (queue ++ (shownDirKids s showAll p r).map fun n => r ++ [n]).map fun r => (str (p ++ r), str (p ++ r)) := by
        rw [h.lsQueued_eq, List.map_append, List.map_map]
        rfl
      rw [List.map_cons, lsOrder, hqueue, ih, levelOrder]
      cases levelOrder (shownDirKids s showAll p) rounds
        (queue ++ (shownDirKids s showAll p r).map fun n => r ++ [n]) <;> rfl

theorem lsListed_eq (showAll : Bool) (p r : List Name) :
    lsListed s showAll (str (p ++ r)) = (shownKids s showAll p r).map fun n => str (p ++ (r ++ [n])) := by
  rw [lsListed, h.children_str, List.filter_map, List.map_map, shownKids]
  refine List.map_congr_left fun n _ => ?_
  show join _ n.1 = _
  rw [join_str, List.append_assoc]

theorem lsVisits_eq (showAll : Bool) (p : List Name) (dirs : List (List Name)) :
    lsVisits s showAll (str p) (dirs.map fun r => (str (p ++ r), str (p ++ r))) =
      ([] :: dirs.flatMap fun r => (shownKids s showAll p r).map fun n => r ++ [n]).map fun r => str (p ++ r) := by
  rw [lsVisits, List.map_cons, List.append_nil, List.flatMap_map, List.map_flatMap]
  refine congrArg _ (List.flatMap_congr fun r _ => ?_)
  rw [h.lsListed_eq, List.map_map]
  rfl

omit h in
theorem visitsOnce_of_visits {keep : Name → Bool} {l : List (List Name)}
    (hl : Visits (prune keep (s.tree.sub p)) [] l) : VisitsOnce s p keep (l.map fun r => str (p ++ r)) := by
  refine ⟨hl.1.map fun r r' hr => List.append_cancel_left (str_injective hr), fun q => ?_⟩
  have hmem : ∀ r, r ∈ l ↔ (∀ n ∈ r, keep n = true) ∧ s.pathExists (str (p ++ r)) = true := by
    intro r
    rw [hl.2, prune_ne_none]
    simp only [List.nil_prefix, true_and]
    exact and_congr_right fun _ => tree_ne_none
  rw [List.mem_map]
  constructor
  · rintro ⟨r, hr, rfl⟩
    exact ⟨r, ((hmem r).1 hr).1, ((hmem r).1 hr).2, rfl⟩
  · rintro ⟨r, hk, hx, rfl⟩
    exact ⟨r, (hmem r).2 ⟨hk, hx⟩, rfl⟩

omit h in
private theorem visitsOnce_of_visits_tree {l : List (List Name)} (hl : Visits s.tree p l) :
    VisitsOnce s p (fun _ => true) (l.map str) := by
  refine ⟨hl.1.map str_injective, fun q => ?_⟩
  rw [List.mem_map]
  constructor
  · rintro ⟨q, hq, rfl⟩
    obtain ⟨⟨r, rfl⟩, hx⟩ := (hl.2 q).1 hq
    exact ⟨r, fun _ _ => rfl, tree_ne_none.1 hx, rfl⟩
  · rintro ⟨r, -, hx, rfl⟩
    exact ⟨p ++ r, (hl.2 _).2 ⟨List.prefix_append p r, tree_ne_none.2 hx⟩, rfl⟩

/-- `ls -R` takes every directory from its queue, and lists what it shows once. -/
theorem walks_ls (hp : s.tree p ≠ none) (showAll : Bool) :
    ∃ dirs N, (∀ rounds, N ≤ rounds → lsOrder s showAll rounds [(str p, str p)] = some dirs) ∧
      VisitsOnce s p (shown showAll) (lsVisits s showAll (str p) dirs) := by
  have hstart : shownTree s showAll p [] ≠ none := by
    rw [shownTree_ne_none, List.append_nil]
    exact ⟨by simp, tree_ne_none.1 hp⟩
  obtain ⟨N, hN⟩ := exists_height s
  have hheight : HeightLE (shownDirs s showAll p) N := by
    intro r hr
    have := hN (p ++ r) (tree_ne_none.2 (shownTree_ne_none.1 (shownDirs_ne_none.1 hr).2).2)
    rw [List.length_append] at this
    omega
  obtain ⟨l, rounds, hl, hv⟩ := visits_levelOrder (h.closed_shownDirs showAll p) (h.lists_shownDirKids showAll p) hheight
    (p := []) (shownDirs_ne_none.2 ⟨.inl rfl, hstart⟩)
  refine ⟨l.map fun r => (str (p ++ r), str (p ++ r)), rounds, fun n hn => ?_, ?_⟩
  · have horder := h.lsOrder_eq showAll p n [[]]
    rw [hl n hn] at horder
    simpa using horder
  · rw [h.lsVisits_eq]
    refine visitsOnce_of_visits ?_
    exact hv.children (h.lists_shownKids showAll p) (fun r hr => (shownDirs_ne_none.1 hr).2)
      (fun r n hx => h.shownDirs_above hx) hstart

/-! ### The SCP source -/

/-- What an SCP source has sent so far, without an exception. -/
structure Sending (s : FakeFilesystem) (t : ScpHandler.Sent) : Prop where
  raised : t.raised = false
  fs : ∃ ops, t.fs = { s with fileOps := ops }

/-- From `t`, the headers of these paths are sent. -/
structure Sends (s : FakeFilesystem) (t : ScpHandler.Sent) (l : List (List Name)) (t' : ScpHandler.Sent) : Prop where
  sending : Sending s t'
  headers : (sentPaths t'.messages).map resolve = (sentPaths t.messages).map resolve ++ l.map str

omit h in
private theorem sentPaths_append (l l' : List ScpHandler.ScpMessage) :
    sentPaths (l ++ l') = sentPaths l ++ sentPaths l' := List.filterMap_append

omit h in
theorem sends_sendFile {t : ScpHandler.Sent} (ht : Sending s t) {path : Str} (hp : resolve path = str p) (node : Node) :
    Sends s t [p] (ScpHandler.sendFile (fun _ => true) t path node) := by
  obtain ⟨ops, hfs⟩ := ht.fs
  refine ⟨⟨ht.raised, ?_⟩, ?_⟩
  · show ∃ ops, (t.fs.getContent path).2 = _
    rcases t.fs.getContent_snd path ∅ with hc | ⟨op, hc⟩
    · exact ⟨ops, hc.trans hfs⟩
    · exact ⟨op :: ops, by rw [hc, hfs]; rfl⟩
  · simp only [ScpHandler.sendFile, if_true, sentPaths_append, List.map_append]
    exact congrArg _ (congrArg (fun q => [q]) hp)

/-- The items of a directory, when `g` sends what is at and below each of them. -/
theorem sends_sendItems {g : ScpHandler.Sent → Str → Node → ScpHandler.Sent} {f : Name → List (List Name)}
    {path : Str} (hhead : path.head? = some '/') (hp : resolve path = str p) {ns : List Name}
    (hns : ∀ n ∈ ns, s.tree (p ++ [n]) ≠ none)
    (hsend : ∀ n ∈ ns, ∀ t, Sending s t → Sends s t (f n) (g t (join path n.1) (s.nodeAt (p ++ [n]))))
    {t : ScpHandler.Sent} (ht : Sending s t) :
    Sends s t (ns.flatMap f) (ScpHandler.sendItems g path t (ns.map Name.val)) := by
  induction ns generalizing t with
  | nil => exact ⟨ht, by simp [ScpHandler.sendItems]⟩
  | cons n ns ih =>
    have hnode : t.fs.getNode (join path n.1) = some (s.nodeAt (p ++ [n])) := by
      obtain ⟨ops, hfs⟩ := ht.fs
      rw [← getNode_resolve, resolve_join hhead hp, hfs]
      exact h.getNode_str (hns n (by simp))
    have hn := hsend n (by simp) t ht
    have hrest := ih (fun m hm => hns m (by simp [hm])) (fun m hm => hsend m (by simp [hm])) hn.sending
    have hstep : ScpHandler.sendItems g path t ((n :: ns).map Name.val) =
        ScpHandler.sendItems g path (g t (join path n.1) (s.nodeAt (p ++ [n]))) (ns.map Name.val) := by
      rw [List.map_cons, ScpHandler.sendItems, hnode]
      simp [hn.sending.raised]
    rw [hstep]
    refine ⟨hrest.sending, ?_⟩
    rw [hrest.headers, hn.headers, List.flatMap_cons, List.map_append, List.append_assoc]

/-- The SCP source goes through the tree depth first. -/
theorem sends_sendDirectory {depth : ℕ} (hp : s.tree p ≠ none) (hd : Shallow s.tree p depth) {path : Str}
    (hhead : path.head? = some '/') (hres : resolve path = str p) {t : ScpHandler.Sent} (ht : Sending s t)
    (node : Node) :
    Sends s t (preorder s.kids depth p) (ScpHandler.sendDirectory (fun _ => true) depth t path node) := by
  induction depth generalizing p path t node with
  | zero => exact (hd.ne_zero hp).elim
  | succ depth ih =>
    obtain ⟨hlist, -, hmem⟩ := h.tidy.listDir_kids p
    have hlist' : t.fs.listDir path = (s.kids p).map Name.val := by
      obtain ⟨ops, hfs⟩ := ht.fs
      rw [hfs, listDir_eq, isDir_eq, hres]
      rw [listDir_eq, isDir_eq, resolve_str] at hlist
      exact hlist
    have hne : path ≠ [] := by rintro rfl; cases hhead
    have hitems := h.sends_sendItems (f := fun n => preorder s.kids depth (p ++ [n]))
      (g := fun t path node => if node.isDir then ScpHandler.sendDirectory (fun _ => true) depth t path node
        else ScpHandler.sendFile (fun _ => true) t path node)
      hhead hres (fun n hn => (hmem n).1 hn) (fun n hn t ht => by
        have hx := (hmem n).1 hn
        have hjoin := resolve_join hhead hres n
        split
        · exact ih hx (hd.child n) ((head?_join hne n).trans hhead) hjoin ht _
        · rename_i hdir
          rw [h.nodeAt_isDir hx, Bool.not_eq_true] at hdir
          cases depth with
          | zero => exact ((hd.child n).ne_zero hx).elim
          | succ depth =>
            rw [preorder, (kids_of_not_dir hdir).2]
            exact sends_sendFile ht hjoin _)
      (t := { t with
        messages := t.messages ++ [ScpHandler.ScpMessage.directory path (ScpHandler.permToMode node.perm)]
        acks := t.acks + 1 }) ⟨ht.raised, ht.fs⟩
    rw [← hlist'] at hitems
    refine ⟨⟨rfl, hitems.sending.fs⟩, ?_⟩
    have hheaders := hitems.headers
    simp only [ScpHandler.sendDirectory, if_true]
    rw [sentPaths_append, List.map_append, preorder]
    refine (List.append_nil _).trans (hheaders.trans ?_)
    rw [sentPaths_append, List.map_append, List.append_assoc, List.map_cons]
    exact congrArg _ (congrArg (fun q => q :: _) hres)

theorem sends_sourceMode {depth : ℕ} (hp : s.tree p ≠ none) (hd : Shallow s.tree p depth) {path : Str}
    (hhead : path.head? = some '/') (hres : resolve path = str p) :
    Sends s ⟨[], 1, s, false⟩ (preorder s.kids depth p) (ScpHandler.sourceMode (fun _ => true) depth s path).2 := by
  have hstart : Sending s ⟨[], 1, s, false⟩ := ⟨rfl, s.fileOps, rfl⟩
  have hnode : s.getNode path = some (s.nodeAt p) := by
    rw [← getNode_resolve, hres, h.getNode_str hp]
  rw [ScpHandler.sourceMode, hnode]
  simp only [if_true]
  split
  · exact h.sends_sendDirectory hp hd hhead hres hstart _
  · rename_i hdir
    rw [h.nodeAt_isDir hp, Bool.not_eq_true] at hdir
    cases depth with
    | zero => exact (hd.ne_zero hp).elim
    | succ depth =>
      rw [preorder, (kids_of_not_dir hdir).2]
      exact sends_sendFile hstart hres _

/-! ### Runs -/

/-- From an existing path, with more nested calls than there are levels below it, each walker visits what is there. -/
theorem walks {depth : ℕ} (hp : s.tree p ≠ none) (hd : Shallow s.tree p depth) : Walks s depth p := by
  have hv := visits_preorder h.closed h.tidy.lists_kids hp hd
  have honce := visitsOnce_of_visits_tree hv
  constructor
  · exact ⟨_, h.walk_eq hp hd, honce⟩
  · exact ⟨_, h.recursiveVisits_eq hp hd, honce⟩
  · exact h.walks_ls hp
  · intro path hhead hres
    have hsends := h.sends_sourceMode hp hd hhead hres
    refine ⟨hsends.sending.raised, ?_⟩
    rw [hsends.headers]
    exact honce

end Walkable

namespace FakeFilesystem

variable {s : FakeFilesystem}

theorem exists_shallow (s : FakeFilesystem) (p : List Name) : ∃ N, Shallow s.tree p N := by
  obtain ⟨N, hN⟩ := s.exists_height
  refine ⟨N + 1, fun r hr => ?_⟩
  have := hN (p ++ r) hr
  rw [List.length_append] at this
  omega

theorem KeepsTidy.keepsTypes {o : Op} (h : s.KeepsTidy o) : s.KeepsTypes o := by
  cases o with
  | mkfile path => exact h.2
  | _ => trivial

theorem walkable_run {calls : List Call} (h : Walkable s) (hG : StepsMeet KeepsTidy s calls) :
    Walkable (run Call.apply s calls) :=
  invariant_of_ops (I := Walkable)
    (fun _ o h hG => ⟨h.tidy.apply hG, (regular_apply_iff h.regular o).2 (KeepsTidy.keepsTypes hG)⟩) h hG

private theorem shallow_mkdirP :
    Shallow (run Call.apply bare [.op (.mkdirP "/a/b".toList root root "drwxr-xr-x".toList)]).tree [] 3 := by
  intro r hr
  have htree := tidy_bare.rooted.tree_mkdirP [⟨['a'], by decide⟩, ⟨['b'], by decide⟩] root root "drwxr-xr-x".toList r
  have hr' : (bare.mkdirP (str [⟨['a'], by decide⟩, ⟨['b'], by decide⟩]) root root "drwxr-xr-x".toList).tree r ≠ none :=
    hr
  rw [htree] at hr'
  split at hr'
  · rename_i hpre
    have := hpre.1.length_le
    rw [List.length_cons, List.length_singleton] at this
    omega
  · have hroot := resolve_of_exists_bare (tree_ne_none.1 hr')
    rw [resolve_str, str_eq_slash] at hroot
    simp [hroot]

private theorem walk_chmod (depth : ℕ) :
    walk (run Call.apply bare [.op (.chmod "/".toList "drwx------".toList)]) depth "/".toList = none := by
  induction depth with
  | zero => rfl
  | succ depth ih =>
    have hdir : ((run Call.apply bare [.op (.chmod "/".toList "drwx------".toList)]).getNode "/".toList).any Node.isDir =
        true := by decide
    have hchildren : ∃ child : Str × Node, child.2.name = [] ∧
        (run Call.apply bare [.op (.chmod "/".toList "drwx------".toList)]).children (resolve "/".toList) = [child] := by
      exact ⟨_, rfl, rfl⟩
    obtain ⟨⟨listed, child⟩, hname, hchildren⟩ := hchildren
    have hself : childPath "/".toList child.name = "/".toList := by
      rw [show child.name = [] from hname]
      decide
    simp only [walk, if_pos hdir, hchildren, List.mapM_cons, hself, ih]
    rfl

end FakeFilesystem

end Cyanide
