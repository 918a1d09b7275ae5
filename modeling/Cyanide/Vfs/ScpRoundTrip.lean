import Cyanide.Vfs.Agreement
import Cyanide.Vfs.SameFiles
import Cyanide.Vfs.ScpUpload

/-!
# From source to sink

What `_handle_source_mode` sends for a path is the stream of a forest with one item, when the queries agree at and below
the path and all names there can be sent; `round_trip` puts this together with `sink_upload`.
-/

namespace Cyanide

open PosixPath PyText

/-- The entry that a transfer leaves: contents arrive as bytes. -/
def Entry.transferred : Entry → Entry
  | file content => .file (.bytes content.encode)
  | e => e

namespace FakeFilesystem

/-- At the path `q` and below it, the queries agree, a directory lists once what exists in it, and what is no directory
has nothing below it. -/
structure Orderly (s : FakeFilesystem) (q : List Name) : Prop where
  agree : ∀ r, s.Agree (str (q ++ r))
  listing : ∀ r, s.tree (q ++ r) = some .dir → ∃ ns : List Name, s.listDir (str (q ++ r)) = ns.map Name.val ∧ ns.Nodup ∧
    ∀ n, n ∈ ns ↔ s.tree (q ++ r ++ [n]) ≠ none
  closed : ∀ r n, s.tree (q ++ r ++ [n]) ≠ none → s.tree (q ++ r) = some .dir

variable {s : FakeFilesystem}

theorem Tidy.orderly (h : Tidy s) (hr : s.Regular) (q : List Name) : Orderly s q where
  agree _ := (agree_iff s _).2 (hr _)
  listing r hd := h.rooted.listDir_children hd
  closed r n hx := by
    rcases h.rooted.above (q ++ r) n hx with hd | ho
    · exact hd
    · -- the queries leave no third type
      have hagree := (agree_iff s (str (q ++ r))).2 (hr _)
      have hx : s.pathExists (str (q ++ r)) = true := by
        by_contra hno
        rw [Bool.not_eq_true, ← entry_eq_none] at hno
        exact absurd (hno.symm.trans ho) (by simp)
      rcases hagree.1.1 hx with ⟨hd, -⟩ | ⟨hf, hd⟩
      · exact entry_eq_dir.2 hd
      · have hfile := entry_eq_file.2 ⟨Bool.not_eq_true _ ▸ hd, hf, rfl⟩
        exact absurd (hfile.symm.trans ho) (by simp)

theorem Orderly.append {q : List Name} (h : Orderly s q) (r : List Name) : Orderly s (q ++ r) where
  agree r' := by
    rw [List.append_assoc]
    exact h.agree (r ++ r')
  listing r' hd := by
    rw [List.append_assoc] at hd ⊢
    exact h.listing (r ++ r') hd
  closed r' n hx := by
    rw [List.append_assoc q] at hx ⊢
    exact h.closed (r ++ r') n hx

/-- What is no directory has nothing below it. -/
theorem Orderly.below_none {q : List Name} (h : Orderly s q) (hd : s.tree q ≠ some .dir) {r : List Name} (hr : r ≠ []) :
    s.tree (q ++ r) = none := by
  by_contra hx
  induction r using List.reverseRecOn with
  | nil => exact hr rfl
  | append_singleton r n ih =>
    have hdir := h.closed r n (by rwa [List.append_assoc])
    by_cases hr' : r = []
    · rw [hr', List.append_nil] at hdir
      exact hd hdir
    · exact ih hr' (by rw [hdir]; simp)

end FakeFilesystem

namespace ScpHandler

/-- The item that a run of messages is the stream of, with what is behind it. -/
structure IsItem (n : Name) (msgs : List ScpMessage) (u : List Name → Option Entry) (item : Forest → Forest) : Prop where
  names : ∀ rest, (item rest).names = n :: rest.names
  bytes : ∀ rest, (item rest).bytes = msgs.flatMap ScpMessage.bytes ++ rest.bytes
  valid : ∀ rest, (item rest).Valid ↔ n ∉ rest.names ∧ rest.Valid
  find : ∀ rest m r, (item rest).find m r = if m = n then u r else rest.find m r

theorem isItem_file (n : Name) (hn : Sendable n.1) (path : Str) (hpath : basename path = n.1) (mode : ℕ)
    (content : List UInt8) :
    IsItem n [.file path mode content.length, .content content]
      (fun r => if r = [] then some (.file (.bytes content)) else none) (.file n mode none content) where
  names _ := rfl
  bytes rest := by
    simp [Forest.bytes, Forest.timesBytes, ScpMessage.bytes, hpath, lineBytes, fileHeader]
  valid rest := by simp [Forest.Valid, hn]
  find rest m r := rfl

theorem isItem_directory (n : Name) (hn : Sendable n.1) (path : Str) (hpath : basename path = n.1) (mode : ℕ)
    {msgs : List ScpMessage} {items : Forest} (hitems : items.Valid)
    (hmsgs : items.bytes = msgs.flatMap ScpMessage.bytes) :
    IsItem n (.directory path mode :: msgs ++ [.endDirectory]) items.tree (.dir n mode none items) where
  names _ := rfl
  bytes rest := by
    simp [Forest.bytes, Forest.timesBytes, ScpMessage.bytes, hpath, lineBytes, directoryHeader, hmsgs]
  valid rest := by simp [Forest.Valid, hn, hitems]
  find rest m r := by
    cases r <;> rfl

/-- A source that gets all its acknowledgements. -/
def allAcks (_ : ℕ) : Bool := true

/-- The source has sent `msgs` and nothing else has changed. -/
structure Sends (s : FakeFilesystem) (t t' : Sent) (msgs : List ScpMessage) : Prop where
  messages : t'.messages = t.messages ++ msgs
  fs : s.SameFiles t'.fs
  raised : t'.raised = false

variable {s : FakeFilesystem} {t : Sent}

theorem sends_file (hfs : s.SameFiles t.fs) (hraised : t.raised = false) (path : Str) (node : Node) :
    ∃ mode, Sends s t (sendFile allAcks t path node)
      [.file path mode (s.getContent path).1.encode.length, .content (s.getContent path).1.encode] := by
  obtain ⟨hcontent, hfs'⟩ := hfs.getContent path
  refine ⟨permToMode node.perm, ?_, ?_, ?_⟩
  all_goals
    rw [sendFile, allAcks]
    simp [hcontent, hfs', hraised]

/-- The items of a directory, each as it is sent. -/
theorem sends_items (send : Sent → Str → Node → Sent) (path : Str) {q : List Name} {ns : List Name} (hns : ns.Nodup)
    (hnode : ∀ n ∈ ns, ∃ node, s.getNode (join path n.1) = some node ∧
      ∀ t : Sent, s.SameFiles t.fs → t.raised = false → ∃ msgs item, Sends s t (send t (join path n.1) node) msgs ∧
        IsItem n msgs (fun r => (s.tree (q ++ n :: r)).map Entry.transferred) item)
    (hfs : s.SameFiles t.fs) (hraised : t.raised = false) :
    ∃ (msgs : List ScpMessage) (f : Forest), Sends s t (sendItems send path t (ns.map Name.val)) msgs ∧
      f.bytes = msgs.flatMap ScpMessage.bytes ∧ f.names = ns ∧ f.Valid ∧
      ∀ n ∈ ns, ∀ r, f.find n r = (s.tree (q ++ n :: r)).map Entry.transferred := by
  induction ns generalizing t with
  | nil => exact ⟨[], .nil, ⟨by simp [sendItems], hfs, hraised⟩, rfl, rfl, trivial, by simp⟩
  | cons n ns ih =>
    rw [List.nodup_cons] at hns
    obtain ⟨⟨node, hget, hsend⟩, hrest⟩ := List.forall_mem_cons.1 hnode
    obtain ⟨msgs, item, hsent, hitem⟩ := hsend t hfs hraised
    obtain ⟨msgs', f, hsent', hbytes, hnames, hvalid, hfind⟩ := ih hns.2 hrest hsent.fs hsent.raised
    have hstep : sendItems send path t ((n :: ns).map Name.val) =
        sendItems send path (send t (join path n.1) node) (ns.map Name.val) := by
      have hget' : t.fs.getNode (join path n.1) = some node := by
        obtain ⟨ops, hops⟩ := hfs
        rw [hops]
        exact hget
      rw [List.map_cons, sendItems, hget']
      simp [hsent.raised]
    refine ⟨msgs ++ msgs', item f, ?_, ?_, ?_, ?_, fun m hm r => ?_⟩
    · rw [hstep]
      exact ⟨by rw [hsent'.messages, hsent.messages, List.append_assoc], hsent'.fs, hsent'.raised⟩
    · rw [hitem.bytes, hbytes, List.flatMap_append]
    · rw [hitem.names, hnames]
    · exact (hitem.valid f).2 ⟨by rw [hnames]; exact hns.1, hvalid⟩
    · rw [hitem.find]
      split_ifs with heq
      · rw [heq]
      · exact hfind m (by simpa [heq] using hm) r

section Item

variable {path : Str} {q : List Name} {n : Name} {node : Node}

/-- A file is an item. -/
private theorem sends_leaf (hpath : resolve path = str (q ++ [n])) (hbase : basename path = n.1)
    (hnode : s.getNode path = some node) (hd : node.isDir = false) (ho : s.Orderly (q ++ [n])) (hsend : Sendable n.1)
    (hfs : s.SameFiles t.fs) (hraised : t.raised = false) :
    ∃ msgs item, Sends s t (sendFile allAcks t path node) msgs ∧
      IsItem n msgs (fun r => (s.tree (q ++ n :: r)).map Entry.transferred) item := by
  have hnode' : s.getNode (str (q ++ [n])) = some node := by
    rw [← hpath, FakeFilesystem.getNode_resolve, hnode]
  have hagree := ho.agree []
  rw [List.append_nil] at hagree
  have hdir : s.isDir (str (q ++ [n])) = false := (hagree.2.2 node hnode').symm.trans hd
  have hx : s.pathExists (str (q ++ [n])) = true := by
    by_contra hno
    rw [Bool.not_eq_true, ← hagree.2.1, hnode'] at hno
    cases hno
  have hfile : s.isFile (str (q ++ [n])) = true := by
    rcases hagree.1.1 hx with ⟨h, -⟩ | ⟨h, -⟩
    · rw [hdir] at h
      cases h
    · exact h
  have hcontent : (s.getContent (str (q ++ [n]))).1 = (s.getContent path).1 := by
    rw [← hpath]
    unfold FakeFilesystem.getContent
    rw [resolve_resolve]
  have htree : s.tree (q ++ [n]) = some (.file (s.getContent path).1) :=
    FakeFilesystem.entry_eq_file.2 ⟨hdir, hfile, hcontent⟩
  obtain ⟨mode, hsent⟩ := sends_file hfs hraised path node
  have hitem := isItem_file n hsend path hbase mode (s.getContent path).1.encode
  have hfind : (fun r => if r = [] then some (Entry.file (.bytes (s.getContent path).1.encode)) else none) =
      fun r => (s.tree (q ++ n :: r)).map Entry.transferred := by
    funext r
    split_ifs with hr
    · rw [hr, htree]
      rfl
    · have hbelow := ho.below_none (by rw [htree]; simp) hr
      rw [List.append_assoc, List.singleton_append] at hbelow
      rw [hbelow]
      rfl
  rw [hfind] at hitem
  exact ⟨_, _, hsent, hitem⟩

end Item

/-- What is sent for a path is an item, down to the depth that the interpreter has left. -/
theorem sends_item (depth : ℕ) {path : Str} {q : List Name} {n : Name} {node : Node} {t : Sent}
    (hhead : path.head? = some '/') (hpath : resolve path = str (q ++ [n])) (hbase : basename path = n.1)
    (hnode : s.getNode path = some node) (ho : s.Orderly (q ++ [n])) (hsend : Sendable n.1)
    (hnames : ∀ r m, s.tree (q ++ n :: r ++ [m]) ≠ none → Sendable m.1)
    (hdepth : ∀ r, s.tree (q ++ n :: r) = some .dir → r.length < depth)
    (hfs : s.SameFiles t.fs) (hraised : t.raised = false) :
    ∃ msgs item, Sends s t (if node.isDir then sendDirectory allAcks depth t path node else sendFile allAcks t path node)
        msgs ∧
      IsItem n msgs (fun r => (s.tree (q ++ n :: r)).map Entry.transferred) item := by
  cases hd : node.isDir with
  | false => simpa using sends_leaf hpath hbase hnode hd ho hsend hfs hraised
  | true =>
    have hnode' : s.getNode (str (q ++ [n])) = some node := by
      rw [← hpath, FakeFilesystem.getNode_resolve, hnode]
    have htree : s.tree (q ++ [n]) = some .dir := by
      have hagree := ho.agree []
      rw [List.append_nil] at hagree
      exact FakeFilesystem.entry_eq_dir.2 ((hagree.2.2 node hnode').symm.trans hd)
    simp only [if_true]
    induction depth generalizing path q n node t with
    | zero => exact absurd (hdepth [] htree) (by simp)
    | succ depth ih =>
      obtain ⟨ns, hlist, hnodup, hmem⟩ := ho.listing [] (by simpa using htree)
      simp only [List.append_nil] at hlist hmem
      have hchildren : ∀ m ∈ ns, ∃ child, s.getNode (join path m.1) = some child ∧
          ∀ t : Sent, s.SameFiles t.fs → t.raised = false → ∃ msgs item,
            Sends s t (if child.isDir then sendDirectory allAcks depth t (join path m.1) child
              else sendFile allAcks t (join path m.1) child) msgs ∧
            IsItem m msgs (fun r => (s.tree (q ++ [n] ++ m :: r)).map Entry.transferred) item := by
        intro m hm
        have hpath' : resolve (join path m.1) = str (q ++ [n] ++ [m]) := resolve_join hhead hpath m
        have hx : s.tree (q ++ [n] ++ [m]) ≠ none := (hmem m).1 hm
        have ho' : s.Orderly (q ++ [n] ++ [m]) := ho.append [m]
        obtain ⟨child, hchild⟩ : ∃ child, s.getNode (join path m.1) = some child := by
          rw [← Option.ne_none_iff_exists', ← FakeFilesystem.getNode_resolve, hpath']
          have hagree := ho'.agree []
          rw [List.append_nil] at hagree
          intro hnone
          exact hx (FakeFilesystem.entry_eq_none.2 (hagree.2.1.1 hnone))
        refine ⟨child, hchild, fun t hfs hraised => ?_⟩
        have hsend' : Sendable m.1 := hnames [] m (by simpa using hx)
        cases hd' : child.isDir with
        | false =>
          simpa using sends_leaf hpath' (basename_join path m) hchild hd' ho' hsend' hfs hraised
        | true =>
          have hchild' : s.getNode (str (q ++ [n] ++ [m])) = some child := by
            rw [← hpath', FakeFilesystem.getNode_resolve, hchild]
          have htree' : s.tree (q ++ [n] ++ [m]) = some .dir := by
            have hagree := ho'.agree []
            rw [List.append_nil] at hagree
            exact FakeFilesystem.entry_eq_dir.2 ((hagree.2.2 child hchild').symm.trans hd')
          simp only [if_true]
          refine ih ?_ hpath' (basename_join path m) hchild ho' hsend' (fun r m' hx' => ?_) (fun r hr => ?_) hfs hraised
            hd' hchild' htree'
          · rw [head?_join (by rintro rfl; cases hhead), hhead]
          · exact hnames (m :: r) m' (by simpa using hx')
          · have hlt := hdepth (m :: r) (by simpa using hr)
            rw [List.length_cons] at hlt
            omega
      obtain ⟨msgs, f, hsent, hbytes, hns, hvalid, hfind⟩ := sends_items
        (fun t path node => if node.isDir then sendDirectory allAcks depth t path node else sendFile allAcks t path node)
        path (q := q ++ [n]) (t := { t with
          messages := t.messages ++ [ScpMessage.directory path (permToMode node.perm)], acks := t.acks + 1 })
        hnodup hchildren hfs hraised
      have hlistPath : t.fs.listDir path = ns.map Name.val := by
        obtain ⟨ops, hops⟩ := hfs
        rw [← hlist, ← hpath, hops]
        show s.listDir path = s.listDir (resolve path)
        unfold FakeFilesystem.listDir
        rw [resolve_resolve]
      have hitem := isItem_directory n hsend path hbase (permToMode node.perm) hvalid hbytes
      have hitems : f.tree = fun r => (s.tree (q ++ n :: r)).map Entry.transferred := by
        funext r
        cases r with
        | nil =>
          rw [htree]
          rfl
        | cons m r =>
          rw [Forest.tree]
          by_cases hm : m ∈ ns
          · rw [hfind m hm]
            simp
          · -- a name that is not listed is not there
            have hno : s.tree (q ++ [n] ++ [m]) = none := by
              by_contra hx
              exact hm ((hmem m).2 hx)
            have hbelow : s.tree (q ++ n :: m :: r) = none := by
              by_cases hr : r = []
              · simpa [hr] using hno
              · have := (ho.append [m]).below_none (by rw [hno]; simp) hr
                simpa using this
            rw [Forest.find_of_notMem (by rw [hns]; exact hm), hbelow]
            rfl
      rw [hitems] at hitem
      refine ⟨_, _, ?_, hitem⟩
      rw [sendDirectory]
      simp only [allAcks, if_true, hlistPath]
      exact ⟨by rw [hsent.messages]; simp, hsent.fs, rfl⟩

/-- The bytes that a source sends for a path when it gets all its acknowledgements. -/
def sourceBytes (depth : ℕ) (s : FakeFilesystem) (path : Str) : List UInt8 :=
  (sourceMode allAcks depth s path).2.messages.flatMap ScpMessage.bytes

/-- The tree of a directory into which the item `n` of the directory `q` was transferred. -/
def transferredTree (s : FakeFilesystem) (q : List Name) (n : Name) : PathTree Name Entry
  | [] => some .dir
  | m :: r => if m = n then (s.tree (q ++ n :: r)).map Entry.transferred else none

/-- A path that a source can send: it is absolute and ends in the name of what it leads to, the filesystem is orderly
there, all names can stand in a header, and the interpreter can go down to all directories. -/
structure CanSend (s : FakeFilesystem) (depth : ℕ) (path : Str) (q : List Name) (n : Name) : Prop where
  absolute : path.head? = some '/'
  leads : resolve path = str (q ++ [n])
  named : basename path = n.1
  orderly : s.Orderly (q ++ [n])
  sendable : Sendable n.1
  names : ∀ r m, s.tree (q ++ n :: r ++ [m]) ≠ none → Sendable m.1
  depth : ∀ r, s.tree (q ++ n :: r) = some .dir → r.length < depth

/-- What a source sends for a path is the stream of a forest with the one item. -/
theorem sourceBytes_eq {depth : ℕ} {path : Str} {q : List Name} {n : Name} (h : CanSend s depth path q n)
    (hx : s.pathExists path = true) :
    ∃ f : Forest, f.Valid ∧ f.bytes = sourceBytes depth s path ∧ f.tree = transferredTree s q n := by
  have hagree := h.orderly.agree []
  rw [List.append_nil, ← h.leads] at hagree
  obtain ⟨node, hnode⟩ : ∃ node, s.getNode path = some node := by
    rw [← Option.ne_none_iff_exists', ← FakeFilesystem.getNode_resolve]
    intro hnone
    have := hagree.2.1.1 hnone
    rw [FakeFilesystem.pathExists_resolve, hx] at this
    cases this
  obtain ⟨msgs, item, hsent, hitem⟩ := sends_item (t := ⟨[], 1, s, false⟩) depth h.absolute h.leads h.named hnode
    h.orderly h.sendable h.names h.depth (.refl s) rfl
  refine ⟨item .nil, (hitem.valid _).2 ⟨by simp [Forest.names], trivial⟩, ?_, ?_⟩
  · have hmessages : (sourceMode allAcks depth s path).2.messages = msgs := by
      have := hsent.messages
      rw [sourceMode, hnode]
      simp only [allAcks, if_true]
      cases hd : node.isDir <;> simpa [hd] using this
    rw [hitem.bytes, sourceBytes, hmessages]
    simp [Forest.bytes]
  · funext r
    cases r with
    | nil => rfl
    | cons m r =>
      rw [Forest.tree, hitem.find]
      rfl

/-- An empty filesystem with the file `/f`. -/
def withF : FakeFilesystem := (bare.mkfile "/f".toList (.bytes [7, 10])).2

end ScpHandler

end Cyanide
