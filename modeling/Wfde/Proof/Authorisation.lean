import Wfde.Proof.MappedFile
import Wfde.Session

/-!
# Authorisation of changes

What the operations of a session do to the file system, and which permission bits they have asked
for when they do it.
-/

namespace Wfde

open Effect

/-- The operations that may change the file system. -/
inductive Operation where
  | openFile (path : Bytes) (operation : FileOperation)
  | deleteFile (path : Bytes)
  | createDirectory (path : Bytes)
  | deleteDirectory (path : Bytes)
  | rename (source target : Bytes)

namespace Session

def perform (self : Session) (segmentSize : Nat) : Operation → DiskM Unit
  | .openFile path operation => do
      let _ ← self.openFile segmentSize path operation
  | .deleteFile path => self.deleteFile path
  | .createDirectory path => self.createDirectory path
  | .deleteDirectory path => self.deleteDirectory path
  | .rename source target => self.rename source target

theorem getPath_type {self : Session} {vpath : Bytes} {type : PathType} {path : Path}
    (h : self.getPath vpath type = .ok path) : path.type = type := by
  unfold getPath at h
  cases hnormal : Path.normalize vpath self.cwd with
  | error e => simp [hnormal, bind, Except.bind] at h
  | ok normal =>
      cases hlookup : self.permissions.getPath normal (some []) with
      | error e => simp [hnormal, hlookup, bind, Except.bind] at h
      | ok found =>
          obtain rfl : found.1.createSubpath (found.2.getD []) type = path := by
            simpa [hnormal, hlookup, bind, Except.bind, pure, Except.pure] using h
          rfl

end Session

namespace Session

section Effects

variable {self : Session} {disk : Disk}

theorem after_performOrDeny (primitive : Primitive) (e : Exception) (disk : Disk) :
    after (do require (← Disk.perform primitive) e) disk = after (Disk.perform primitive) disk :=
  after_bind_keeps (fun _ => keeps_require _ _) disk

/-- An operation that resolves a path, asks for a permission bit and for what is there, and then
calls the operating system. -/
theorem after_guarded (resolved : Except Exception Path) (bit : Path → Bool) (wanted : Bool → Bool)
    (primitive : Path → Primitive) (e e' e'' : Exception) :
    let operation : DiskM Unit := do
      let path ← lift resolved
      require (bit path) e
      require (wanted (← path.existsOnDisk)) e'
      require (← Disk.perform (primitive path)) e''
    after operation disk = disk
      ∨ ∃ path, resolved = .ok path ∧ bit path = true
        ∧ wanted (path.type.isTypeOf (disk.files.node path.ppath)) = true
        ∧ after operation disk = after (Disk.perform (primitive path)) disk := by
  intro operation
  rcases after_bind_of_keeps (keeps_lift _) disk with h | ⟨path, hpath, h⟩
  · exact .inl h
  rw [h]
  rcases after_bind_of_keeps (keeps_require _ _) disk with h | ⟨_, hbit, h⟩
  · exact .inl h
  rw [h]
  rcases after_bind_of_keeps path.keeps_existsOnDisk disk with h | ⟨found, hfound, h⟩
  · exact .inl h
  obtain ⟨-, -, rfl⟩ := Path.existsOnDisk_eq_ok hfound
  rw [h]
  rcases after_bind_of_keeps (keeps_require _ _) disk with h | ⟨_, hwanted, h⟩
  · exact .inl h
  rw [h, after_performOrDeny]
  exact .inr ⟨path, (lift_eq_ok.mp hpath).1, (require_eq_ok.mp hbit).1,
    (require_eq_ok.mp hwanted).1, rfl⟩

theorem keeps_authoriseMove (fromPath toPath : Path) : Keeps Eq (authoriseMove fromPath toPath) :=
  keeps_ite (keeps_pure _) (keeps_bind (Disk.keeps_status _) fun _ =>
    keeps_bind (keeps_require _ _) fun _ => keeps_require _ _)

theorem isSameParentDir_eq_false (path other : Path) : path.isSameParentDir other = false := by
  unfold Path.isSameParentDir
  have hdistance : (((Path.split path.vpath).length : Int) - 1
      == ((Path.split path.vpath).length : Int) - 2) = false := by
    rw [beq_eq_false_iff_ne]
    omega
  simp [hdistance]

theorem authoriseMove_eq_ok {fromPath toPath : Path} {disk' : Disk} {u : Unit}
    (h : (authoriseMove fromPath toPath).run disk = .ok u disk') :
    (Node.isDirectory (disk.files.node fromPath.ppath) = true → toPath.canCreateDir = true)
      ∧ (Node.isDirectory (disk.files.node fromPath.ppath) = false
        → toPath.canCreateFile = true) := by
  unfold authoriseMove at h
  rw [isSameParentDir_eq_false, if_neg (by simp)] at h
  obtain ⟨node, _, hstatus, h⟩ := bind_eq_ok.mp h
  obtain ⟨-, rfl, rfl⟩ := Disk.status_eq_ok.mp hstatus
  obtain ⟨_, _, hdir, h⟩ := bind_eq_ok.mp h
  have hdir := (require_eq_ok.mp hdir).1
  have hfile := (require_eq_ok.mp h).1
  constructor <;> intro hnode <;> simp_all

variable (self) (disk) in
theorem after_rename (source target : Bytes) :
    after (self.rename source target) disk = disk
      ∨ ∃ fromPath toPath, self.getPath source .any = .ok fromPath
        ∧ self.getPath target .any = .ok toPath ∧ fromPath.canRename = true
        ∧ (Node.isDirectory (disk.files.node fromPath.ppath) = true → toPath.canCreateDir = true)
        ∧ (Node.isDirectory (disk.files.node fromPath.ppath) = false → toPath.canCreateFile = true)
        ∧ after (self.rename source target) disk
          = after (Disk.perform (.rename fromPath.ppath toPath.ppath)) disk := by
  unfold rename
  rcases after_bind_of_keeps (keeps_lift _) disk with h | ⟨fromPath, hfrom, h⟩
  · exact .inl h
  rw [h]
  rcases after_bind_of_keeps (keeps_lift _) disk with h | ⟨toPath, hto, h⟩
  · exact .inl h
  rw [h]
  rcases after_bind_of_keeps (keeps_require _ _) disk with h | ⟨_, hbit, h⟩
  · exact .inl h
  rw [h]
  rcases after_bind_of_keeps fromPath.keeps_existsOnDisk disk with h | ⟨there, -, h⟩
  · exact .inl h
  rw [h]
  rcases after_bind_of_keeps (keeps_require _ _) disk with h | ⟨_, -, h⟩
  · exact .inl h
  rw [h]
  rcases after_bind_of_keeps toPath.keeps_existsOnDisk disk with h | ⟨taken, -, h⟩
  · exact .inl h
  rw [h]
  rcases after_bind_of_keeps (keeps_require _ _) disk with h | ⟨_, -, h⟩
  · exact .inl h
  rw [h]
  rcases after_bind_of_keeps (keeps_authoriseMove _ _) disk with h | ⟨_, hmove, h⟩
  · exact .inl h
  rw [h, after_performOrDeny]
  obtain ⟨hdir, hfile⟩ := authoriseMove_eq_ok hmove
  exact .inr ⟨fromPath, toPath, (lift_eq_ok.mp hfrom).1, (lift_eq_ok.mp hto).1,
    (require_eq_ok.mp hbit).1, hdir, hfile, rfl⟩

theorem canWrite_of_authorise {path : Path} {operation : FileOperation} (hread : operation ≠ .read)
    (h : authorise path operation = .ok ()) : path.canWrite = true := by
  cases operation with
  | read => exact absurd rfl hread
  | _ =>
      by_contra hbit
      simp [authorise, hbit] at h

theorem canCreateFile_of_authorise {path : Path} (h : authorise path .writeNew = .ok ()) :
    path.canCreateFile = true := by
  by_contra hbit
  simp [authorise, hbit] at h

variable (self) (disk) in
theorem after_openFile (segmentSize : Nat) (path : Bytes) (operation : FileOperation) :
    after (self.openFile segmentSize path operation) disk = disk
      ∨ ∃ filePath, self.getPath path .file = .ok filePath ∧ authorise filePath operation = .ok ()
        ∧ after (self.openFile segmentSize path operation) disk
          = after (WfdeFile.prepare filePath.ppath operation) disk := by
  unfold openFile
  rcases after_bind_of_keeps (keeps_lift _) disk with h | ⟨filePath, hpath, h⟩
  · exact .inl h
  rw [h]
  rcases after_bind_of_keeps (keeps_lift _) disk with h | ⟨_, hbits, h⟩
  · exact .inl h
  rw [h, WfdeFile.after_make]
  exact .inr ⟨filePath, (lift_eq_ok.mp hpath).1, (lift_eq_ok.mp hbits).1, rfl⟩

theorem after_openFile_of_authorised (segmentSize : Nat) {path : Bytes} {operation : FileOperation}
    {filePath : Path} (hpath : self.getPath path .file = .ok filePath)
    (hbits : authorise filePath operation = .ok ()) :
    after (self.openFile segmentSize path operation) disk
      = after (WfdeFile.prepare filePath.ppath operation) disk := by
  unfold openFile
  rw [after_bind_of_ok (lift_eq_ok.mpr ⟨hpath, rfl⟩), after_bind_of_ok (lift_eq_ok.mpr ⟨hbits, rfl⟩),
    WfdeFile.after_make]

end Effects

end Session

/-- What the bits of a resolved path allow to become of the node at it. -/
def NodeCovered (path : Path) : Option Node → Option Node → Prop
  | none, none => True
  | none, some (.file _) => path.canCreateFile = true
  | none, some .directory => path.canCreateDir = true
  | some (.file content), some (.file content') => content = content' ∨ path.canWrite = true
  | some (.file _), none => path.canDeleteFile = true
  | some (.file _), some .directory => False
  | some .directory, none => path.canDeleteDir = true
  | some .directory, some (.file _) => False
  | some .directory, some .directory => True

/-- The directory a virtual path is in, as its components. -/
def parentDir (path : Path) : List Bytes := (Path.split path.vpath).dropLast

namespace Operation

/-- The path an operation resolves; the source of a move. -/
def resolved (self : Session) : Operation → Except Exception Path
  | .openFile path _ => self.getPath path .file
  | .deleteFile path => self.getPath path .file
  | .createDirectory path => self.getPath path .directory
  | .deleteDirectory path => self.getPath path .directory
  | .rename source _ => self.getPath source .any

/-- Every change is at the resolved path and covered by one of its bits; a move is covered by the
bits of its source and its target. -/
def Covered (self : Session) (operation : Operation) (before after : FileSystem) : Prop :=
  match operation with
  | .rename source target => after.node ≠ before.node →
      ∃ fromPath toPath, self.getPath source .any = .ok fromPath
        ∧ self.getPath target .any = .ok toPath
        ∧ before.perform (.rename fromPath.ppath toPath.ppath) = some after
        ∧ fromPath.canRename = true
        ∧ (parentDir fromPath ≠ parentDir toPath →
            (Node.isDirectory (before.node fromPath.ppath) = true → toPath.canCreateDir = true)
            ∧ (Node.isDirectory (before.node fromPath.ppath) = false → toPath.canCreateFile = true))
  | operation => ∀ ppath, after.node ppath ≠ before.node ppath →
      ∃ path, operation.resolved self = .ok path ∧ path.ppath = ppath
        ∧ NodeCovered path (before.node ppath) (after.node ppath)

/-- A file that is not there is written to, and would be created, without the bit for it. -/
def CreatesUnchecked (self : Session) (disk : Disk) : Operation → Prop
  | .openFile path operation => (operation = .write ∨ operation = .append)
      ∧ ∃ filePath, self.getPath path .file = .ok filePath ∧ filePath.canWrite = true
        ∧ filePath.canCreateFile = false ∧ disk.files.node filePath.ppath = none
        ∧ disk.files.refuses .status filePath.ppath = false
        ∧ disk.files.refuses .write filePath.ppath = false
  | _ => False

section Primitives

variable (files : FileSystem) {path : PPath}

theorem getD_ite_set (refused : Bool) (node : Option Node) :
    (if refused = true then none else some (files.set path node)).getD files = files
      ∨ (if refused = true then none else some (files.set path node)).getD files
        = files.set path node := by
  cases refused with
  | true => exact .inl rfl
  | false => exact .inr rfl

theorem remove_set {node : Node} (hnode : files.node path = some node) :
    (files.perform (.remove path)).getD files = files
      ∨ (files.perform (.remove path)).getD files = files.set path none := by
  simp only [FileSystem.perform, hnode]
  exact getD_ite_set files _ none

theorem touch_set (hnode : files.node path = none) :
    (files.perform (.touch path)).getD files = files
      ∨ (files.perform (.touch path)).getD files = files.set path (some (.file [])) := by
  simp only [FileSystem.perform, hnode]
  exact getD_ite_set files _ _

theorem truncate_set {content : Bytes} (hnode : files.node path = some (.file content)) :
    (files.perform (.resizeFile path 0)).getD files = files
      ∨ (files.perform (.resizeFile path 0)).getD files = files.set path (some (.file [])) := by
  have hempty : resized content 0 = [] := by simp [resized]
  simp only [FileSystem.perform, hnode, hempty]
  exact getD_ite_set files _ _

theorem createDirectory_set (hnode : files.node path = none) :
    (files.perform (.createDirectory path)).getD files = files
      ∨ (files.perform (.createDirectory path)).getD files = files.set path (some .directory) := by
  simp only [FileSystem.perform, hnode]
  exact getD_ite_set files _ _

end Primitives

variable {self : Session} {disk : Disk}

theorem covered_of_set {operation : Operation} {path : Path} {node : Option Node} {files : FileSystem}
    (hop : ∀ source target, operation ≠ .rename source target)
    (hresolved : operation.resolved self = .ok path)
    (hfiles : files = disk.files ∨ files = disk.files.set path.ppath node)
    (hnode : NodeCovered path (disk.files.node path.ppath) node) :
    operation.Covered self disk.files files := by
  have hat : ∀ ppath, files.node ppath ≠ disk.files.node ppath →
      ∃ path, operation.resolved self = .ok path ∧ path.ppath = ppath
        ∧ NodeCovered path (disk.files.node ppath) (files.node ppath) := by
    intro ppath hchanged
    rcases hfiles with rfl | rfl
    · exact absurd rfl hchanged
    · by_cases hsame : ppath = path.ppath
      · subst hsame
        exact ⟨path, hresolved, rfl, by simpa using hnode⟩
      · exact absurd (FileSystem.set_node_of_ne _ _ hsame) hchanged
  cases operation with
  | rename source target => exact absurd rfl (hop source target)
  | _ => exact hat

theorem covered_self (operation : Operation) (files : FileSystem) :
    operation.Covered self files files := by
  cases operation with
  | rename source target => exact fun h => absurd rfl h
  | _ => exact fun ppath h => absurd rfl h

theorem deleteFile_covered (path : Bytes) :
    (Operation.deleteFile path).Covered self disk.files
      (after (self.deleteFile path) disk).files := by
  rcases Session.after_guarded (self.getPath path .file) (·.canDeleteFile) id
    (.remove ·.ppath) .accessDenied .notFound .accessDenied with h | ⟨filePath, hpath, hbit, hthere, h⟩
  · rw [show after (self.deleteFile path) disk = disk from h]
    exact covered_self _ _
  · rw [show after (self.deleteFile path) disk = _ from h, Disk.after_perform]
    rw [Session.getPath_type hpath] at hthere
    cases hnode : disk.files.node filePath.ppath with
    | none => simp [PathType.isTypeOf, hnode, Node.isRegularFile] at hthere
    | some node =>
        cases node with
        | directory => simp [PathType.isTypeOf, hnode, Node.isRegularFile] at hthere
        | file content =>
            refine covered_of_set (by simp) hpath (remove_set disk.files hnode) ?_
            rw [hnode]
            exact hbit

theorem deleteDirectory_covered (path : Bytes) :
    (Operation.deleteDirectory path).Covered self disk.files
      (after (self.deleteDirectory path) disk).files := by
  rcases Session.after_guarded (self.getPath path .directory) (·.canDeleteDir) id
    (.remove ·.ppath) .accessDenied .notFound .accessDenied with h | ⟨dirPath, hpath, hbit, hthere, h⟩
  · rw [show after (self.deleteDirectory path) disk = disk from h]
    exact covered_self _ _
  · rw [show after (self.deleteDirectory path) disk = _ from h, Disk.after_perform]
    rw [Session.getPath_type hpath] at hthere
    cases hnode : disk.files.node dirPath.ppath with
    | none => simp [PathType.isTypeOf, hnode, Node.isDirectory] at hthere
    | some node =>
        cases node with
        | file content => simp [PathType.isTypeOf, hnode, Node.isDirectory] at hthere
        | directory =>
            refine covered_of_set (by simp) hpath (remove_set disk.files hnode) ?_
            rw [hnode]
            exact hbit

theorem createDirectory_covered (path : Bytes) :
    (Operation.createDirectory path).Covered self disk.files
      (after (self.createDirectory path) disk).files := by
  rcases Session.after_guarded (self.getPath path .directory) (·.canCreateDir) (!·)
    (.createDirectory ·.ppath) .accessDenied .alreadyExist .accessDenied
    with h | ⟨dirPath, hpath, hbit, hfree, h⟩
  · rw [show after (self.createDirectory path) disk = disk from h]
    exact covered_self _ _
  · rw [show after (self.createDirectory path) disk = _ from h, Disk.after_perform]
    cases hnode : disk.files.node dirPath.ppath with
    | none =>
        refine covered_of_set (by simp) hpath (createDirectory_set disk.files hnode) ?_
        rw [hnode]
        exact hbit
    | some node =>
        -- what is there stays: a file fails the call, a directory makes it do nothing
        have hsame : (disk.files.perform (.createDirectory dirPath.ppath)).getD disk.files
            = disk.files := by
          cases node <;> simp [FileSystem.perform, hnode]
        rw [hsame]
        exact covered_self _ _

theorem rename_covered (source target : Bytes) :
    (Operation.rename source target).Covered self disk.files
      (after (self.rename source target) disk).files := by
  rcases Session.after_rename self disk source target
    with h | ⟨fromPath, toPath, hfrom, hto, hbit, hdir, hfile, h⟩
  · rw [h]
    exact covered_self _ _
  · rw [h, Disk.after_perform]
    intro hmoved
    cases hperform : disk.files.perform (.rename fromPath.ppath toPath.ppath) with
    | none => simp [hperform] at hmoved
    | some files => exact ⟨fromPath, toPath, hfrom, hto, hperform, hbit, fun _ => ⟨hdir, hfile⟩⟩

theorem openFile_covered {segmentSize : Nat} {path : Bytes} {operation : FileOperation}
    (hchecked : ¬ (Operation.openFile path operation).CreatesUnchecked self disk) :
    (Operation.openFile path operation).Covered self disk.files
      (after (self.openFile segmentSize path operation) disk).files := by
  rcases Session.after_openFile self disk segmentSize path operation
    with h | ⟨filePath, hpath, hbits, h⟩
  · rw [h]
    exact covered_self _ _
  rw [h]
  by_cases hstatus : disk.files.refuses .status filePath.ppath = true
  · rw [WfdeFile.after_prepare_of_refused hstatus]
    exact covered_self _ _
  rw [WfdeFile.after_prepare (by simpa using hstatus)]
  cases hnode : disk.files.node filePath.ppath with
  | some node =>
      cases operation with
      | write =>
          change (Operation.openFile path .write).Covered self disk.files
            (after (Disk.perform (.resizeFile filePath.ppath 0)) disk).files
          rw [Disk.after_perform]
          cases node with
          | directory =>
              have hsame : (disk.files.perform (.resizeFile filePath.ppath 0)).getD disk.files
                  = disk.files := by
                simp [FileSystem.perform, hnode]
              rw [hsame]
              exact covered_self _ _
          | file content =>
              refine covered_of_set (by simp) hpath (truncate_set disk.files hnode) ?_
              rw [hnode]
              exact .inr (Session.canWrite_of_authorise (by simp) hbits)
      | _ => exact covered_self _ _
  | none =>
      by_cases hread : operation = .read
      · subst hread
        exact covered_self _ _
      have hprimitive : WfdeFile.primitiveOf filePath.ppath operation none
          = some (.touch filePath.ppath) := by
        cases operation <;> first | rfl | exact absurd rfl hread
      rw [hprimitive]
      change (Operation.openFile path operation).Covered self disk.files
        (after (Disk.perform (.touch filePath.ppath)) disk).files
      rw [Disk.after_perform]
      by_cases hwrite : disk.files.refuses .write filePath.ppath = true
      · have hsame : (disk.files.perform (.touch filePath.ppath)).getD disk.files = disk.files := by
          simp [FileSystem.perform, hwrite]
        rw [hsame]
        exact covered_self _ _
      · refine covered_of_set (by simp) hpath (touch_set disk.files hnode) ?_
        rw [hnode]
        by_contra hbit
        by_cases hnew : operation = .writeNew
        · subst hnew
          exact hbit (Session.canCreateFile_of_authorise hbits)
        · refine hchecked ⟨?_, filePath, hpath, Session.canWrite_of_authorise hread hbits,
            by simpa [NodeCovered] using hbit, hnode, by simpa using hstatus, by simpa using hwrite⟩
          cases operation <;> simp_all

theorem openFile_not_covered {segmentSize : Nat} {path : Bytes} {operation : FileOperation}
    (hunchecked : (Operation.openFile path operation).CreatesUnchecked self disk) :
    ¬ (Operation.openFile path operation).Covered self disk.files
      (after (self.openFile segmentSize path operation) disk).files := by
  obtain ⟨hop, filePath, hpath, hcanWrite, hbit, hnode, hstatus, hwrite⟩ := hunchecked
  have hbits : Session.authorise filePath operation = .ok () := by
    rcases hop with rfl | rfl <;> simp [Session.authorise, hcanWrite]
  have hprimitive : WfdeFile.primitiveOf filePath.ppath operation none
      = some (.touch filePath.ppath) := by
    rcases hop with rfl | rfl <;> rfl
  rw [Session.after_openFile_of_authorised segmentSize hpath hbits, WfdeFile.after_prepare hstatus,
    hnode, hprimitive]
  intro hcovered
  have hcreated : (disk.files.perform (.touch filePath.ppath)).getD disk.files
      = disk.files.set filePath.ppath (some (.file [])) := by
    simp [FileSystem.perform, hwrite, hnode]
  obtain ⟨found, hfound, -, hnodes⟩ := hcovered filePath.ppath (by
    simp [Disk.after_perform, hcreated, hnode])
  obtain rfl : filePath = found := Except.ok.inj (hpath.symm.trans hfound)
  simp [Disk.after_perform, hcreated, hnode, NodeCovered, hbit] at hnodes

theorem after_perform_openFile (self : Session) (segmentSize : Nat) (path : Bytes)
    (operation : FileOperation) (disk : Disk) :
    after (self.perform segmentSize (.openFile path operation)) disk
      = after (self.openFile segmentSize path operation) disk :=
  after_bind_keeps (fun _ => keeps_pure _) disk

/-- An operation calls the operating system at most once to change the file system. -/
theorem perform_cases (self : Session) (segmentSize : Nat) (operation : Operation) (disk : Disk) :
    after (self.perform segmentSize operation) disk = disk
      ∨ ∃ primitive, after (self.perform segmentSize operation) disk
        = after (Disk.perform primitive) disk := by
  cases operation with
  | openFile path operation =>
      rw [after_perform_openFile]
      rcases Session.after_openFile self disk segmentSize path operation
        with h | ⟨filePath, -, -, h⟩
      · exact .inl h
      rw [h]
      by_cases hstatus : disk.files.refuses .status filePath.ppath = true
      · exact .inl (WfdeFile.after_prepare_of_refused hstatus operation)
      · rw [WfdeFile.after_prepare (by simpa using hstatus)]
        cases WfdeFile.primitiveOf filePath.ppath operation (disk.files.node filePath.ppath) with
        | none => exact .inl rfl
        | some primitive => exact .inr ⟨primitive, rfl⟩
  | deleteFile path =>
      exact (Session.after_guarded (self.getPath path .file) (·.canDeleteFile) id
        (.remove ·.ppath) .accessDenied .notFound .accessDenied).imp_right
          fun ⟨filePath, _, _, _, h⟩ => ⟨_, h⟩
  | createDirectory path =>
      exact (Session.after_guarded (self.getPath path .directory) (·.canCreateDir) (!·)
        (.createDirectory ·.ppath) .accessDenied .alreadyExist .accessDenied).imp_right
          fun ⟨dirPath, _, _, _, h⟩ => ⟨_, h⟩
  | deleteDirectory path =>
      exact (Session.after_guarded (self.getPath path .directory) (·.canDeleteDir) id
        (.remove ·.ppath) .accessDenied .notFound .accessDenied).imp_right
          fun ⟨dirPath, _, _, _, h⟩ => ⟨_, h⟩
  | rename source target =>
      exact (Session.after_rename _ _ source target).imp_right
        fun ⟨fromPath, toPath, _, _, _, _, _, h⟩ => ⟨_, h⟩

/-- What is thrown before the operating system is called changes nothing. -/
theorem files_eq_of_performed_eq (self : Session) (segmentSize : Nat) (operation : Operation)
    (disk : Disk)
    (h : (after (self.perform segmentSize operation) disk).performed = disk.performed) :
    (after (self.perform segmentSize operation) disk).files = disk.files := by
  rcases perform_cases self segmentSize operation disk with hsame | ⟨primitive, hprimitive⟩
  · rw [hsame]
  · rw [hprimitive, Disk.after_perform] at h
    simp at h

theorem covered_iff (self : Session) (segmentSize : Nat) (operation : Operation) (disk : Disk) :
    operation.Covered self disk.files (after (self.perform segmentSize operation) disk).files
      ↔ ¬ operation.CreatesUnchecked self disk := by
  cases operation with
  | openFile path operation =>
      rw [after_perform_openFile]
      exact ⟨fun hcovered hunchecked => openFile_not_covered hunchecked hcovered, openFile_covered⟩
  | deleteFile path => exact iff_of_true (deleteFile_covered path) id
  | createDirectory path => exact iff_of_true (createDirectory_covered path) id
  | deleteDirectory path => exact iff_of_true (deleteDirectory_covered path) id
  | rename source target => exact iff_of_true (rename_covered source target) id

end Operation

open Operation

/-- **Authorisation of changes.** Every change an operation makes is covered by a permission bit of
the path it resolved, and nothing changes before the operating system is called, if and only if no
missing file is opened to be written or appended to without the bit to create it. -/
theorem perform_covered_iff (session : Session) (segmentSize : Nat) (operation : Operation)
    (disk : Disk) :
    let left := after (session.perform segmentSize operation) disk
    (operation.Covered session disk.files left.files
        ∧ (left.performed = disk.performed → left.files = disk.files))
      ↔ ¬ operation.CreatesUnchecked session disk := by
  rw [← covered_iff session segmentSize operation disk]
  exact and_iff_left (files_eq_of_performed_eq session segmentSize operation disk)

/-- A session that may write below `/`, and create nothing. -/
def writingSession : Session :=
  { permissions :=
      ⟨[.make (bytes "/") [bytes "srv"] (Path.toPermBits [.canWrite, .isRecursive])],
        by decide, by decide⟩ }

def emptyDisk : Disk := ⟨⟨fun _ => none, fun _ _ => false⟩, []⟩

/-- `STOR new` creates the file. -/
theorem not_perform_covered_write :
    let operation : Operation := .openFile (bytes "new") .write
    let left := after (writingSession.perform 4096 operation) emptyDisk
    left.files.node [bytes "srv", bytes "new"] = some (.file [])
      ∧ (∃ path, operation.resolved writingSession = .ok path ∧ path.canCreateFile = false)
      ∧ ¬ operation.Covered writingSession emptyDisk.files left.files := by
  have hresolved : (Operation.openFile (bytes "new") .write).resolved writingSession
      = .ok (.make (bytes "/new") [bytes "srv", bytes "new"]
        (Path.toPermBits [.canWrite, .isRecursive]) .file) := by decide
  refine ⟨by decide, ⟨_, hresolved, by decide⟩, fun h => ?_⟩
  obtain ⟨path, hpath, -, hnode⟩ := h [bytes "srv", bytes "new"] (by decide)
  obtain rfl := Except.ok.inj (hpath.symm.trans hresolved)
  have hbit : Path.canCreateFile _ = true := hnode
  exact absurd hbit (by decide)

end Wfde
