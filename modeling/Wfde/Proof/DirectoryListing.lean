import Wfde.FileListing
import Wfde.Lib.Batches

/-!
# Directory listings are complete

A listing gives the visible entries of the directory, and then the virtual names, in as many buffers
as they take. It does so unless the directory has no entries at all, and as far as the strings of the
virtual names keep what they hold when they are destroyed.
-/

namespace Wfde

open Batches

namespace FileListIterator

variable (host : Host)

def dirEntry (ppath : PPath) (name : Bytes) : Entry := ⟨name, host.stat (ppath ++ [name])⟩

/-- A virtual name when its string is destroyed. -/
def releasedEntry (vpath : Entry) : Entry := { vpath with name := host.released vpath.name }

/-- What comes behind the entry that the iterator is at. -/
def rest (fli : FileListIterator) : List Entry :=
  (if fli.isEof then [] else (fli.dir.getD []).map (dirEntry host fli.ppath))
    ++ fli.vpaths.reverse.map (releasedEntry host)

def pending (fli : FileListIterator) : List Entry :=
  if fli.isMore then (fli.stat host).entry :: fli.rest host else []

variable {host} {fli : FileListIterator}

@[simp]
theorem stat_dir : (fli.stat host).dir = fli.dir := rfl

@[simp]
theorem stat_name : (fli.stat host).name = fli.name := rfl

@[simp]
theorem stat_rest : (fli.stat host).rest host = fli.rest host := rfl

theorem stat_stat : (fli.stat host).stat host = fli.stat host := by
  cases heof : fli.isEof <;> simp [stat, heof, isFake]

@[simp]
theorem stat_pending : (fli.stat host).pending host = fli.pending host := by
  rw [pending, pending, stat_stat, stat_rest]
  rfl

theorem pending_of_isMore (h : fli.isMore = true) :
    fli.pending host = (fli.stat host).entry :: fli.rest host := by
  rw [pending, if_pos h]

theorem pending_of_not_isMore (h : fli.isMore = false) : fli.pending host = [] := by
  simp [pending, h]

theorem advance_opened (h : fli.dir.isSome) : (fli.advance host).dir.isSome := by
  obtain ⟨dir, hdir⟩ := Option.isSome_iff_exists.mp h
  obtain ⟨ppath, _, isEof, haveVpath, st, name, vpaths⟩ := fli
  obtain rfl : _ = some dir := hdir
  simp only [advance]
  split
  · rfl
  · split <;> rfl

/-- Going on leaves the rest, whichever of the two sources it comes from. -/
theorem pending_advance (h : fli.dir.isSome) : (fli.advance host).pending host = fli.rest host := by
  obtain ⟨dir, hdir⟩ := Option.isSome_iff_exists.mp h
  obtain ⟨ppath, _, isEof, haveVpath, st, name, vpaths⟩ := fli
  obtain rfl : _ = some dir := hdir
  have hpop : vpaths = [] ∨ ∃ others vpath, vpaths = others ++ [vpath] :=
    List.eq_nil_or_concat' vpaths
  cases isEof with
  | true =>
      obtain rfl | ⟨others, vpath, rfl⟩ := hpop
      · simp [advance, pending, rest, isMore]
      · simp [advance, pending, rest, isMore, stat, entry, releasedEntry]
  | false =>
      cases dir with
      | nil =>
          obtain rfl | ⟨others, vpath, rfl⟩ := hpop
          · simp [advance, pending, rest, isMore]
          · simp [advance, pending, rest, isMore, stat, entry, releasedEntry]
      | cons next dir => simp [advance, pending, rest, isMore, stat, entry, dirEntry, isFake]

theorem foldl_addVirtualPath (vpaths : List Entry) :
    vpaths.foldl addVirtualPath fli = { fli with vpaths := fli.vpaths ++ vpaths } := by
  induction vpaths generalizing fli with
  | nil => simp
  | cons vpath vpaths ih =>
      rw [List.foldl_cons, ih]
      simp [addVirtualPath]

/-- The virtual names come in if the first call of `readdir` has found an entry. -/
theorem pending_make (ppath : PPath) (dir : List Bytes) (vpaths : List Entry) :
    (vpaths.foldl addVirtualPath (make host ppath dir)).pending host
      = if dir = [] then []
        else dir.map (dirEntry host ppath) ++ vpaths.reverse.map (releasedEntry host) := by
  rw [foldl_addVirtualPath]
  cases dir with
  | nil => simp [make, advance, pending, isMore]
  | cons name dir => simp [make, advance, pending, rest, isMore, stat, entry, dirEntry, isFake]

end FileListIterator

open FileListIterator

def Visible (showHidden : Bool) (name : Bytes) : Prop :=
  showHidden = true ∨ ¬ [dot] <+: name ∨ name = [dot] ∨ name = [dot, dot]

instance (showHidden : Bool) (name : Bytes) : Decidable (Visible showHidden name) :=
  inferInstanceAs (Decidable (_ ∨ _))

def visible (showHidden : Bool) (entries : List Entry) : List Entry :=
  entries.filter fun entry => Visible showHidden entry.name

theorem hides_eq_false_iff (showHidden : Bool) (name : Bytes) :
    DirLister.hides showHidden name = false ↔ Visible showHidden name := by
  match name with
  | [] => simp [DirLister.hides, Visible, dot]
  | [c] =>
      by_cases hc : c = dot <;> simp [DirLister.hides, Visible, hc, @eq_comm _ dot]
  | [c, d] =>
      by_cases hc : c = dot <;> cases showHidden
        <;> simp [DirLister.hides, Visible, hc, @eq_comm _ dot]
  | c :: d :: e :: name =>
      by_cases hc : c = dot <;> simp [DirLister.hides, Visible, hc, @eq_comm _ dot]

theorem visible_cons_of_hides {showHidden : Bool} {entry : Entry} (entries : List Entry)
    (h : DirLister.hides showHidden entry.name = true) :
    visible showHidden (entry :: entries) = visible showHidden entries := by
  have hnot : ¬ Visible showHidden entry.name := by
    rw [← hides_eq_false_iff, h]
    simp
  simp [visible, hnot]

theorem visible_cons_of_not_hides {showHidden : Bool} {entry : Entry} (entries : List Entry)
    (h : DirLister.hides showHidden entry.name = false) :
    visible showHidden (entry :: entries) = entry :: visible showHidden entries := by
  have hvisible := (hides_eq_false_iff showHidden entry.name).mp h
  simp [visible, hvisible]

theorem Formatter.print_of_le {formatter : Formatter} {entry : Entry}
    (h : formatter.buffer.length ≤ formatter.cur + formatter.format.calculateSize entry) :
    formatter.print entry = (none, { formatter with cur := 0 }) := by
  rw [print, if_pos h]

theorem Formatter.print_of_lt {formatter : Formatter} {entry : Entry}
    (h : formatter.cur + formatter.format.calculateSize entry < formatter.buffer.length) :
    formatter.print entry = (some (formatter.format.printIt entry).length,
      formatter.put (formatter.format.printIt entry)) := by
  rw [print, if_neg (Nat.not_le.mpr h)]

theorem Formatter.put_length {formatter : Formatter} {line : Bytes}
    (h : formatter.cur + line.length ≤ formatter.buffer.length) :
    (formatter.put line).buffer.length = formatter.buffer.length := by
  simp only [put, List.length_append, List.length_take, List.length_drop]
  omega

theorem Formatter.put_take {formatter : Formatter} (line : Bytes)
    (h : formatter.cur ≤ formatter.buffer.length) :
    (formatter.put line).buffer.take (formatter.cur + line.length)
      = formatter.buffer.take formatter.cur ++ line := by
  have hlen : (formatter.buffer.take formatter.cur ++ line).length
      = formatter.cur + line.length := by
    rw [List.length_append, List.length_take, Nat.min_eq_left h]
  rw [put, ← hlen, List.take_left]

namespace DirLister

variable (host : Host)

def toShow (lister : DirLister) : List Entry := visible lister.showHidden (lister.fli.pending host)

/-- What a call of `List` leaves when it has shown a batch: the rest is to be shown from the start of
the buffer. -/
structure Shown (lister : DirLister) (left : List Entry) (next : DirLister) : Prop where
  remaining : next.toShow host = left
  pending : next.fli.pending host <:+ lister.fli.pending host
  opened : next.fli.dir.isSome
  format : next.formatter.format = lister.formatter.format
  size : next.formatter.buffer.length = lister.formatter.buffer.length
  showHidden : next.showHidden = lister.showHidden
  start : left ≠ [] → next.formatter.cur = 0

variable {host} {lister : DirLister}

theorem Shown.step {moved next : DirLister} {left : List Entry} (h : Shown host moved left next)
    (hpending : moved.fli.pending host <:+ lister.fli.pending host)
    (hformat : moved.formatter.format = lister.formatter.format)
    (hsize : moved.formatter.buffer.length = lister.formatter.buffer.length)
    (hhidden : moved.showHidden = lister.showHidden) : Shown host lister left next where
  remaining := h.remaining
  pending := h.pending.trans hpending
  opened := h.opened
  format := h.format.trans hformat
  size := h.size.trans hsize
  showHidden := h.showHidden.trans hhidden
  start := h.start

section Passes

variable {fuel : Nat}

def current (host : Host) (lister : DirLister) : Entry := (lister.fli.stat host).entry

def skipped (host : Host) (lister : DirLister) : DirLister :=
  { lister with fli := lister.fli.advance host }

def stopped (host : Host) (lister : DirLister) : DirLister :=
  { lister with fli := lister.fli.stat host, formatter := { lister.formatter with cur := 0 } }

def printed (host : Host) (lister : DirLister) : DirLister :=
  let line := lister.formatter.format.printIt (lister.current host)
  { lister with
    fli := (lister.fli.stat host).advance host
    formatter := lister.formatter.put line
    bytesUsed := lister.bytesUsed + line.length }

theorem listLoop_of_not_isMore (h : lister.fli.isMore = false) :
    listLoop host (fuel + 1) lister = some (false, lister) := by
  simp [listLoop, h]

theorem listLoop_of_hides (h : lister.fli.isMore = true)
    (hhides : hides lister.showHidden lister.fli.name = true) :
    listLoop host (fuel + 1) lister = listLoop host fuel (lister.skipped host) := by
  rw [listLoop, if_pos h, if_pos hhides]
  rfl

theorem listLoop_of_full (h : lister.fli.isMore = true)
    (hhides : hides lister.showHidden lister.fli.name = false)
    (hfull : lister.formatter.buffer.length
      ≤ lister.formatter.cur + lister.formatter.format.calculateSize (lister.current host)) :
    listLoop host (fuel + 1) lister = some (true, lister.stopped host) := by
  have hprint := Formatter.print_of_le hfull
  unfold current at hprint
  simp [listLoop, h, hhides, hprint, stopped]

theorem listLoop_of_room (h : lister.fli.isMore = true)
    (hhides : hides lister.showHidden lister.fli.name = false)
    (hroom : lister.formatter.cur + lister.formatter.format.calculateSize (lister.current host)
      < lister.formatter.buffer.length) :
    listLoop host (fuel + 1) lister = listLoop host fuel (lister.printed host) := by
  have hprint := Formatter.print_of_lt hroom
  unfold current at hprint
  simp [listLoop, h, hhides, hprint, printed, current]

theorem pending_skipped (h : lister.fli.dir.isSome) :
    (lister.skipped host).fli.pending host = lister.fli.rest host := pending_advance h

theorem pending_printed (h : lister.fli.dir.isSome) :
    (lister.printed host).fli.pending host = lister.fli.rest host := by
  rw [printed, pending_advance (by simpa using h), stat_rest]

theorem toShow_skipped (hopened : lister.fli.dir.isSome) (h : lister.fli.isMore = true)
    (hhides : hides lister.showHidden lister.fli.name = true) :
    (lister.skipped host).toShow host = lister.toShow host := by
  rw [toShow, toShow, pending_skipped hopened, pending_of_isMore h]
  exact (visible_cons_of_hides _ hhides).symm

theorem toShow_printed (hopened : lister.fli.dir.isSome) (h : lister.fli.isMore = true)
    (hhides : hides lister.showHidden lister.fli.name = false) :
    lister.toShow host = lister.current host :: (lister.printed host).toShow host := by
  rw [toShow, toShow, pending_printed hopened, pending_of_isMore h]
  exact visible_cons_of_not_hides _ hhides

theorem getBuffer_printed (hcur : lister.formatter.cur = lister.bytesUsed)
    (hused : lister.bytesUsed ≤ lister.formatter.buffer.length) :
    (lister.printed host).getBuffer
      = lister.getBuffer ++ lister.formatter.format.printIt (lister.current host) := by
  rw [getBuffer, getBuffer, ← hcur]
  exact hcur ▸ Formatter.put_take _ (hcur ▸ hused)

theorem toShow_stopped : (lister.stopped host).toShow host = lister.toShow host := by
  rw [toShow, toShow, stopped, stat_pending]

end Passes

theorem listLoop_mono {fuel more : Nat} {result : Bool × DirLister}
    (h : listLoop host fuel lister = some result) (hle : fuel ≤ more) :
    listLoop host more lister = some result := by
  induction fuel generalizing lister more with
  | zero => simp [listLoop] at h
  | succ fuel ih =>
      obtain ⟨more, rfl⟩ : ∃ rest, more = rest + 1 := ⟨more - 1, by omega⟩
      have hrest : fuel ≤ more := by omega
      cases hmore : lister.fli.isMore with
      | false => rwa [listLoop_of_not_isMore hmore] at h ⊢
      | true =>
          cases hhides : hides lister.showHidden lister.fli.name with
          | true =>
              rw [listLoop_of_hides hmore hhides] at h ⊢
              exact ih h hrest
          | false =>
              by_cases hfull : lister.formatter.buffer.length ≤ lister.formatter.cur
                  + lister.formatter.format.calculateSize (lister.current host)
              · rwa [listLoop_of_full hmore hhides hfull] at h ⊢
              · have hroom := Nat.lt_of_not_le hfull
                rw [listLoop_of_room hmore hhides hroom] at h ⊢
                exact ih h hrest

/-- The loop of `List` fills the buffer with the entries to be shown. -/
theorem listLoop_run {fuel : Nat} {batch : Bytes} {left : List Entry}
    (hopened : lister.fli.dir.isSome) (hcur : lister.formatter.cur = lister.bytesUsed)
    (hused : lister.bytesUsed ≤ lister.formatter.buffer.length)
    (hsizes : ∀ entry ∈ lister.toShow host, (lister.formatter.format.printIt entry).length
      ≤ lister.formatter.format.calculateSize entry)
    (hfuel : (lister.fli.pending host).length < fuel)
    (hfill : fill lister.formatter.format.calculateSize lister.formatter.format.printIt
      lister.formatter.buffer.length lister.bytesUsed (lister.toShow host) = (batch, left)) :
    ∃ next, listLoop host fuel lister = some (!left.isEmpty, next)
      ∧ next.getBuffer = lister.getBuffer ++ batch ∧ Shown host lister left next := by
  induction fuel generalizing lister batch with
  | zero => exact absurd hfuel (Nat.not_lt_zero _)
  | succ fuel ih =>
      cases hmore : lister.fli.isMore with
      | false =>
          have hnone : lister.toShow host = [] := by
            rw [toShow, pending_of_not_isMore hmore]
            rfl
          rw [hnone, fill] at hfill
          obtain ⟨rfl, rfl⟩ := Prod.mk.inj hfill
          exact ⟨lister, listLoop_of_not_isMore hmore, (List.append_nil _).symm,
            { remaining := hnone, pending := List.suffix_rfl, opened := hopened, format := rfl,
              size := rfl, showHidden := rfl, start := fun hleft => absurd rfl hleft }⟩
      | true =>
          have hshorter : lister.fli.rest host <:+ lister.fli.pending host := by
            rw [pending_of_isMore hmore]
            exact List.suffix_cons _ _
          have hlength : (lister.fli.rest host).length < fuel := by
            rw [pending_of_isMore hmore, List.length_cons] at hfuel
            omega
          cases hhides : hides lister.showHidden lister.fli.name with
          | true =>
              have hrest := @pending_skipped host _ hopened
              have hshow := @toShow_skipped host _ hopened hmore hhides
              obtain ⟨next, hrun, hbuffer, hshown⟩ := @ih (lister.skipped host) batch
                (advance_opened hopened) hcur hused (hshow ▸ hsizes) (hrest ▸ hlength)
                (hshow.symm ▸ hfill)
              rw [listLoop_of_hides hmore hhides]
              exact ⟨next, hrun, hbuffer, hshown.step (hrest.symm ▸ hshorter) rfl rfl rfl⟩
          | false =>
              have hshow := @toShow_printed host _ hopened hmore hhides
              by_cases hfull : lister.formatter.buffer.length ≤ lister.formatter.cur
                  + lister.formatter.format.calculateSize (lister.current host)
              · rw [hshow, fill_of_le _ (hcur ▸ hfull), ← hshow] at hfill
                obtain ⟨rfl, rfl⟩ := Prod.mk.inj hfill
                have hpending : (lister.stopped host).fli.pending host = lister.fli.pending host :=
                  stat_pending
                refine ⟨lister.stopped host, ?_, (List.append_nil _).symm,
                  { remaining := toShow_stopped, pending := hpending ▸ List.suffix_rfl,
                    opened := hopened, format := rfl, size := rfl, showHidden := rfl,
                    start := fun _ => rfl }⟩
                rw [listLoop_of_full hmore hhides hfull, hshow]
                rfl
              · have hroom := Nat.lt_of_not_le hfull
                have hsize := hsizes _ (hshow ▸ List.mem_cons_self)
                have hends : lister.formatter.cur
                    + (lister.formatter.format.printIt (lister.current host)).length
                    ≤ lister.formatter.buffer.length := by omega
                have hput := Formatter.put_length hends
                have hrest := @pending_printed host _ hopened
                obtain ⟨more, others, hmoreFill⟩ : ∃ more others,
                    fill lister.formatter.format.calculateSize lister.formatter.format.printIt
                      lister.formatter.buffer.length (lister.printed host).bytesUsed
                      ((lister.printed host).toShow host) = (more, others) := ⟨_, _, rfl⟩
                have hfilled : fill lister.formatter.format.calculateSize
                    lister.formatter.format.printIt lister.formatter.buffer.length lister.bytesUsed
                    (lister.toShow host)
                      = (lister.formatter.format.printIt (lister.current host) ++ more, others) := by
                  rw [hshow, fill_of_lt _ (hcur ▸ hroom)]
                  exact congrArg (Prod.map _ id) hmoreFill
                obtain ⟨rfl, rfl⟩ := Prod.mk.inj (hfilled.symm.trans hfill)
                obtain ⟨next, hrun, hbuffer, hshown⟩ := @ih (lister.printed host) more
                  (advance_opened hopened) (congrArg (· + _) hcur)
                  (by rw [printed, hput, ← hcur]; exact hends)
                  (fun entry hentry => hsizes entry (hshow ▸ List.mem_cons_of_mem _ hentry))
                  (hrest ▸ hlength) (by rw [printed, hput]; exact hmoreFill)
                rw [listLoop_of_room hmore hhides hroom]
                refine ⟨next, hrun, ?_, hshown.step (hrest.symm ▸ hshorter) rfl hput rfl⟩
                rw [hbuffer, getBuffer_printed hcur hused, List.append_assoc]

/-- Between two calls of `List` the formatter is at the start of its buffer. -/
structure Ready (host : Host) (lister : DirLister) : Prop where
  opened : lister.fli.dir.isSome
  start : lister.formatter.cur = 0
  sizes : ∀ entry ∈ lister.toShow host, (lister.formatter.format.printIt entry).length
    ≤ lister.formatter.format.calculateSize entry

theorem list_run {fuel : Nat} {batch : Bytes} {left : List Entry} (h : lister.Ready host)
    (hfuel : (lister.fli.pending host).length < fuel)
    (hfill : fill lister.formatter.format.calculateSize lister.formatter.format.printIt
      lister.formatter.buffer.length 0 (lister.toShow host) = (batch, left)) :
    ∃ next, list host fuel lister = some (!left.isEmpty, next) ∧ next.getBuffer = batch
      ∧ Shown host lister left next := by
  obtain ⟨next, hrun, hbuffer, hshown⟩ := @listLoop_run host { lister with bytesUsed := 0 } fuel batch
    left h.opened h.start (Nat.zero_le _) h.sizes hfuel hfill
  exact ⟨next, hrun, by simpa [getBuffer] using hbuffer,
    hshown.step List.suffix_rfl rfl rfl rfl⟩

/-- Whatever the entries that a call shows, it takes them off what is pending. -/
theorem Shown.length_lt {next : DirLister} {left : List Entry} (h : Shown host lister left next)
    (hlt : left.length < (lister.toShow host).length) :
    (next.fli.pending host).length < (lister.fli.pending host).length := by
  apply lt_of_le_of_ne h.pending.length_le
  intro hlen
  have hsame : next.fli.pending host = lister.fli.pending host := h.pending.eq_of_length hlen
  have hleft : left = lister.toShow host := by
    rw [← h.remaining, toShow, toShow, hsame, h.showHidden]
  exact absurd hlt (by simp [hleft])

end DirLister

namespace WfdeFtpList

variable {host : Host}

/-- The listing can be read up to its end, and these are the bytes of it. -/
def Delivers (host : Host) (file : WfdeFtpList) (bytes : Bytes) : Prop :=
  ∃ fuel buffers, readUntilEof host fuel file = some buffers ∧ buffers.flatten = bytes

theorem read_run {file : WfdeFtpList} {fuel : Nat} {batch : Bytes} {left : List Entry}
    (h : file.dirLister.Ready host) (hfuel : (file.dirLister.fli.pending host).length < fuel)
    (hfill : fill file.dirLister.formatter.format.calculateSize
      file.dirLister.formatter.format.printIt file.dirLister.formatter.buffer.length 0
      (file.dirLister.toShow host) = (batch, left)) :
    ∃ next, file.read host fuel = some (batch, next) ∧ next.isEof = left.isEmpty
      ∧ DirLister.Shown host file.dirLister left next.dirLister := by
  obtain ⟨next, hrun, hbuffer, hshown⟩ := DirLister.list_run h hfuel hfill
  refine ⟨⟨!(!left.isEmpty), file.pos + next.bytesUsed, next⟩, ?_, Bool.not_not _, hshown⟩
  rw [read, hrun, ← hbuffer]
  rfl

theorem readUntilEof_run {items : List Entry} {batches : List Bytes} {file : WfdeFtpList}
    {format : Format} {limit fuel : Nat}
    (hbatches : Batched format.calculateSize format.printIt limit items batches)
    (hready : file.dirLister.Ready host) (hitems : file.dirLister.toShow host = items)
    (hformat : file.dirLister.formatter.format = format)
    (hlimit : file.dirLister.formatter.buffer.length = limit)
    (hfits : ∀ entry ∈ items, format.calculateSize entry < limit)
    (hfuel : (file.dirLister.fli.pending host).length < fuel) :
    readUntilEof host fuel file = some batches := by
  obtain ⟨fuel, rfl⟩ : ∃ more, fuel = more + 1 := ⟨fuel - 1, by omega⟩
  induction hbatches generalizing file fuel with
  | last h =>
      obtain ⟨next, hread, heof, -⟩ := read_run hready hfuel (by rw [hformat, hlimit, hitems, h])
      rw [readUntilEof, hread]
      simp [heof]
  | @more items batch left batches h hleft _ ih =>
      obtain ⟨next, hread, heof, hshown⟩ :=
        read_run hready hfuel (by rw [hformat, hlimit, hitems, h])
      have hsubset := (fill_suffix h).subset
      have hlt : left.length < items.length := length_lt_of_fill hfits hleft h
      have hpending := hshown.length_lt (by rw [← hitems] at hlt; exact hlt)
      have hnext : next.dirLister.Ready host :=
        { opened := hshown.opened
          start := hshown.start hleft
          sizes := fun entry hentry => by
            rw [hshown.format]
            exact hready.sizes entry (hitems ▸ hsubset (hshown.remaining ▸ hentry)) }
      obtain ⟨fuel, rfl⟩ : ∃ more, fuel = more + 1 := ⟨fuel - 1, by omega⟩
      have hrest := ih hnext hshown.remaining (hshown.format.trans hformat)
        (hshown.size.trans hlimit) (fun entry hentry => hfits entry (hsubset hentry)) fuel (by omega)
      rw [readUntilEof, hread]
      simp [heof, hleft, hrest]

theorem delivers_of_ready {file : WfdeFtpList} (hready : file.dirLister.Ready host)
    (hfits : ∀ entry ∈ file.dirLister.toShow host,
      file.dirLister.formatter.format.calculateSize entry < file.dirLister.formatter.buffer.length) :
    Delivers host file
      ((file.dirLister.toShow host).flatMap file.dirLister.formatter.format.printIt) := by
  obtain ⟨batches, hbatches⟩ := @exists_batched _ _ _ file.dirLister.formatter.format.printIt _ _ hfits
  exact ⟨_, batches, readUntilEof_run hbatches hready rfl rfl rfl hfits (Nat.lt_succ_self _),
    hbatches.flatten⟩

theorem read_mono {fuel more : Nat} {file : WfdeFtpList} {result : Bytes × WfdeFtpList}
    (h : file.read host fuel = some result) (hle : fuel ≤ more) :
    file.read host more = some result := by
  obtain ⟨listed, hlisted, hresult⟩ := Option.map_eq_some_iff.mp h
  exact Option.map_eq_some_iff.mpr ⟨listed, DirLister.listLoop_mono hlisted hle, hresult⟩

theorem readUntilEof_mono {fuel more : Nat} {file : WfdeFtpList} {buffers : List Bytes}
    (h : readUntilEof host fuel file = some buffers) (hle : fuel ≤ more) :
    readUntilEof host more file = some buffers := by
  induction fuel generalizing file more buffers with
  | zero => simp [readUntilEof] at h
  | succ fuel ih =>
      obtain ⟨more, rfl⟩ : ∃ rest, more = rest + 1 := ⟨more - 1, by omega⟩
      rw [readUntilEof] at h ⊢
      cases hread : file.read host (fuel + 1) with
      | none => simp [hread] at h
      | some result =>
          obtain ⟨buffer, next⟩ := result
          rw [hread] at h
          rw [read_mono hread hle]
          cases heof : next.isEof with
          | true => simpa [heof] using h
          | false =>
              have hmap : (readUntilEof host fuel next).map (buffer :: ·) = some buffers := by
                simpa [heof] using h
              obtain ⟨others, hothers, rfl⟩ := Option.map_eq_some_iff.mp hmap
              simp [heof, ih hothers (Nat.le_of_succ_le_succ hle)]

theorem Delivers.unique {file : WfdeFtpList} {a b : Bytes} (ha : Delivers host file a)
    (hb : Delivers host file b) : a = b := by
  obtain ⟨fuel, buffers, hread, rfl⟩ := ha
  obtain ⟨fuel', buffers', hread', rfl⟩ := hb
  have hboth := readUntilEof_mono hread (le_max_left fuel fuel')
  rw [readUntilEof_mono hread' (le_max_right fuel fuel')] at hboth
  rw [Option.some.inj hboth]

theorem make_ready {ppath : PPath} {dir : List Bytes} {vpaths : List Entry} {showHidden : Bool}
    {buffer : Bytes} {format : Format}
    (hsizes : ∀ entry ∈ visible showHidden
      ((vpaths.foldl addVirtualPath (.make host ppath dir)).pending host),
      (format.printIt entry).length ≤ format.calculateSize entry) :
    (make host ppath dir vpaths showHidden buffer format).dirLister.Ready host where
  opened := by
    rw [make, foldl_addVirtualPath]
    exact advance_opened rfl
  start := rfl
  sizes := hsizes

end WfdeFtpList

/-- A listing is complete with every formatter and every buffer: it delivers the lines of the visible
entries of the directory, and of the visible virtual names in some order. -/
def ListsOnce (host : Host) (ppath : PPath) (dir : List Bytes) (vpaths : List Entry)
    (showHidden : Bool) : Prop :=
  ∀ format buffer,
    (∀ entry ∈ visible showHidden (dir.map (dirEntry host ppath) ++ vpaths),
      (format.printIt entry).length ≤ format.calculateSize entry
        ∧ format.calculateSize entry < buffer.length) →
    ∃ order, order.Perm (visible showHidden vpaths)
      ∧ WfdeFtpList.Delivers host (.make host ppath dir vpaths showHidden buffer format)
        ((visible showHidden (dir.map (dirEntry host ppath)) ++ order).flatMap format.printIt)

/-- The names that the listing reads after it has destroyed their strings are the visible ones. -/
def KeepsNames (host : Host) (vpaths : List Entry) (showHidden : Bool) : Prop :=
  (visible showHidden (vpaths.map (releasedEntry host))).Perm (visible showHidden vpaths)

theorem visible_append (showHidden : Bool) (front back : List Entry) :
    visible showHidden (front ++ back) = visible showHidden front ++ visible showHidden back :=
  List.filter_append ..

/-- The format that prints one character for one of the entries. -/
def marking (marked : Entry) : Format where
  calculateSize _ := 1
  printIt entry := if entry = marked then [dot] else []

theorem marking_length (marked : Entry) (entries : List Entry) :
    (entries.flatMap (marking marked).printIt).length = entries.count marked := by
  induction entries with
  | nil => rfl
  | cons entry entries ih =>
      rw [List.flatMap_cons, List.length_append, ih, List.count_cons]
      by_cases h : entry = marked <;> simp [marking, h, Nat.add_comm]

section Complete

variable {host : Host} {ppath : PPath} {dir : List Bytes} {vpaths : List Entry} {showHidden : Bool}

/-- The entries that the iterator gives, from the directory and from the virtual names. -/
def given (host : Host) (ppath : PPath) (dir : List Bytes) (vpaths : List Entry) : List Entry :=
  (vpaths.foldl addVirtualPath (.make host ppath dir)).pending host

theorem delivers_make {buffer : Bytes} {format : Format}
    (hfits : ∀ entry ∈ visible showHidden (given host ppath dir vpaths),
      (format.printIt entry).length ≤ format.calculateSize entry
        ∧ format.calculateSize entry < buffer.length) :
    WfdeFtpList.Delivers host (.make host ppath dir vpaths showHidden buffer format)
      ((visible showHidden (given host ppath dir vpaths)).flatMap format.printIt) :=
  WfdeFtpList.delivers_of_ready
    (WfdeFtpList.make_ready fun entry hentry => (hfits entry hentry).1)
    fun entry hentry => (hfits entry hentry).2

theorem visible_given (hdir : dir ≠ []) :
    visible showHidden (given host ppath dir vpaths)
      = visible showHidden (dir.map (dirEntry host ppath))
        ++ (visible showHidden (vpaths.map (releasedEntry host))).reverse := by
  rw [given, pending_make, if_neg hdir, visible_append, List.map_reverse]
  simp [visible, List.filter_reverse]

theorem ListsOnce.count_eq (h : ListsOnce host ppath dir vpaths showHidden) (marked : Entry) :
    (visible showHidden (dir.map (dirEntry host ppath))).count marked
        + (visible showHidden vpaths).count marked
      = (visible showHidden (given host ppath dir vpaths)).count marked := by
  have hfits : ∀ entry : Entry, ((marking marked).printIt entry).length
      ≤ (marking marked).calculateSize entry
        ∧ (marking marked).calculateSize entry < [dot, dot].length := by
    intro entry
    by_cases hentry : entry = marked <;> simp [marking, hentry]
  obtain ⟨order, horder, hdelivers⟩ := h (marking marked) [dot, dot] fun entry _ => hfits entry
  have hlines := hdelivers.unique (delivers_make fun entry _ => hfits entry)
  have hlength := congrArg List.length hlines
  rw [marking_length, marking_length, List.count_append] at hlength
  rw [← horder.count_eq marked, hlength]

/-- **Directory listings.** A listing gives every visible entry of a directory once and then every
visible virtual name once, wherever the buffers end, if and only if the directory has an entry and
the names read the same after their strings are destroyed, or there is nothing to list. -/
theorem listsOnce_iff (host : Host) (ppath : PPath) (dir : List Bytes) (vpaths : List Entry)
    (showHidden : Bool) :
    ListsOnce host ppath dir vpaths showHidden
      ↔ dir = [] ∧ visible showHidden vpaths = [] ∨ dir ≠ [] ∧ KeepsNames host vpaths showHidden := by
  by_cases hdir : dir = []
  · have hnone : visible showHidden (given host ppath dir vpaths) = [] := by
      rw [given, pending_make, if_pos hdir]
      rfl
    rw [or_iff_left fun h => h.1 hdir, and_iff_right hdir]
    constructor
    · intro h
      rw [List.eq_nil_iff_forall_not_mem]
      intro entry hentry
      have hcount := h.count_eq entry
      rw [hnone, List.count_nil] at hcount
      have hpos := List.count_pos_iff.mpr hentry
      omega
    · intro hvpaths format buffer hfits
      have hdelivers :=
        @delivers_make host ppath dir vpaths showHidden buffer format (by simp [hnone])
      refine ⟨[], hvpaths ▸ List.Perm.nil, ?_⟩
      rw [hnone] at hdelivers
      subst hdir
      exact hdelivers
  · rw [or_iff_right fun h => hdir h.1, and_iff_right hdir]
    constructor
    · intro h
      apply List.perm_iff_count.mpr
      intro entry
      have hcount := h.count_eq entry
      rw [visible_given hdir, List.count_append, List.count_reverse] at hcount
      omega
    · intro hkeeps format buffer hfits
      have horder := (List.reverse_perm _).trans hkeeps
      refine ⟨_, horder, ?_⟩
      rw [← visible_given hdir]
      apply delivers_make
      intro entry hentry
      apply hfits
      rw [visible_given hdir, List.mem_append] at hentry
      rw [visible_append, List.mem_append]
      exact hentry.imp_right horder.mem_iff.mp

end Complete

/-- A host on which a destroyed string keeps what it holds, and one on which it is cleared. -/
def keepingHost : Host := ⟨fun _ => {}, id⟩
def clearingHost : Host := ⟨fun _ => {}, fun name => List.replicate name.length 0⟩

def pubEntry : Entry := ⟨bytes "pub", {}⟩

/-- `readdir` has nothing for a directory that has been removed, and the virtual name is missing;
elsewhere the name is read from a string that is no longer there. -/
theorem not_listsOnce :
    WfdeFtpList.readUntilEof keepingHost 2
        (.make keepingHost [] [] [pubEntry] false (List.replicate 64 0) nlstFormat) = some [[]]
      ∧ ¬ ListsOnce keepingHost [] [] [pubEntry] false
      ∧ WfdeFtpList.readUntilEof clearingHost 4
        (.make clearingHost [] [[dot], [dot, dot]] [pubEntry] false (List.replicate 64 0) nlstFormat)
        = some [[dot, cr, lf, dot, dot, cr, lf, 0, 0, 0, cr, lf]]
      ∧ ¬ ListsOnce clearingHost [] [[dot], [dot, dot]] [pubEntry] false := by
  refine ⟨by decide, fun h => ?_, by decide, fun h => ?_⟩
  · have hcount := h.count_eq pubEntry
    exact absurd hcount (by decide)
  · have hcount := h.count_eq pubEntry
    exact absurd hcount (by decide)

end Wfde
