import Wfde.Proof.SharedTransfers

/-!
# Transfers from the request on

What comes of a request to store or to retrieve a file, or to list a directory, on a server where other
sessions take their turns. What one session has stored, another one can retrieve.
-/

namespace Wfde

open Effect FtpSession Separation WfdeFile

namespace FtpSession

/-- What a file takes up of a text that comes in over the data connection. -/
def asStored (type : TransferType) (text : Bytes) : Bytes :=
  if type = .bin then text else File.toLocal text

/-- A text that is the same behind a transfer in and a transfer out. -/
def IsWireText (type : TransferType) (text : Bytes) : Prop :=
  type = .bin ∨ ∃ lines, text = File.crlfText lines

section Types

variable {type : TransferType} {text : Bytes}

theorem crlfText_toLocal_crlfText (text : Bytes) :
    File.crlfText (File.toLocal (File.crlfText text)) = File.crlfText text := by
  let stripped := text.filter (· ≠ cr)
  have hcr : cr ∉ stripped := by
    intro hmem
    simpa using (List.mem_filter.mp hmem).2
  have hstripped : File.crlfText text = File.toWire stripped := by
    rw [File.toWire_eq_crlfText, File.crlfText, File.crlfText, List.filter_filter]
    simp only [Bool.and_self]
  rw [hstripped, File.toLocal_toWire hcr, File.toWire_eq_crlfText]

theorem IsWireText.asSent_asStored (h : IsWireText type text) :
    asSent type (asStored type text) = text := by
  unfold asSent asStored
  split
  · rfl
  · rename_i hascii
    obtain ⟨lines, rfl⟩ := h.resolve_left hascii
    exact crlfText_toLocal_crlfText lines

end Types

/-- What a transfer of that type knows of its file. -/
def receiverOf (type : TransferType) (segmentSize : Nat) (path : PPath) (base : Bytes) : Receiver :=
  if type = .bin then mapped segmentSize path base else wrapped segmentSize path base

/-- An upload of that type, with what the data connection has returned. -/
def ReceivesAs (type : TransferType) (segmentSize : Nat) (path : PPath) (base : Bytes)
    (past : List SocketRead) (ftp : FtpSession) : Prop :=
  ((receiverOf type segmentSize path base).course past).At ftp ∧ UsesOnly path ftp

section Uploads

variable {type : TransferType} {ftp : FtpSession} {event : Event} {path : PPath}
  {operation : FileOperation} {base : Bytes} {segmentSize : Nat}

theorem usesOnly_of_made {file : File} {made : WfdeFile} {segmentSize : Nat} {disk disk' : Disk}
    (hwrites : operation ≠ .read) (hsegment : 0 < segmentSize)
    (hmake : (make segmentSize path operation).run disk = .ok made disk')
    (hfile : ftp.currentFile = some file) (hinner : file.inner = .mapped made) :
    UsesOnly path ftp := by
  obtain ⟨-, -, hpath, -⟩ := make_holds hwrites hsegment hmake
  intro other hother
  obtain rfl := Option.some.inj (hfile.symm.trans hother)
  left
  rw [hinner, ← hpath]
  exact List.prefix_rfl

theorem Moves.receivesAs (h : Moves ftp event path operation) (hwrites : operation ≠ .read)
    (htidy : Tidy ftp) :
    ReceivesAs ftp.state.getType (ftp.step event).segmentSize path
      (baseContent operation (ftp.disk.files.node path)) [] (ftp.step event) := by
  have hstarted := h.uploads hwrites htidy
  unfold ReceivesAs receiverOf
  split
  · rename_i hbinary
    rw [if_pos hbinary] at hstarted
    obtain ⟨made, hmake, hfile⟩ := hstarted.file
    exact ⟨hstarted.receives, usesOnly_of_made hstarted.writes hstarted.segment hmake hfile rfl⟩
  · rename_i hascii
    rw [if_neg hascii] at hstarted
    obtain ⟨made, hmake, hfile⟩ := hstarted.file
    exact ⟨hstarted.receives, usesOnly_of_made hstarted.writes hstarted.segment hmake hfile rfl⟩

theorem rule_receivesAs (type : TransferType) {segmentSize : Nat} (hsegment : 0 < segmentSize)
    (path : PPath) (base : Bytes) :
    ServedSessions.TransferRule socketReadOf SocketRead.Fits (Sees (.under path))
      (ReceivesAs type segmentSize path base) := by
  apply ServedSessions.rule_receiver
  · unfold receiverOf
    split
    · exact sound_mapped path base hsegment
    · exact sound_wrapped segmentSize path base
  · unfold receiverOf
    split
    · exact keptAside_mapped segmentSize path base
    · exact keptAside_wrapped segmentSize path base

/-- What is in the file when the transfer has ended. -/
theorem ReceivesAs.stored {reads : List SocketRead} {last : SocketRead}
    (h : ReceivesAs type segmentSize path base (reads ++ [last]) ftp) (hended : ftp.transferFile = none)
    (hlast : last.Ends) :
    ∃ padding, ftp.disk.files.node path
        = some (.file (base ++ asStored type (reads.flatMap SocketRead.bytes) ++ padding))
      ∧ (padding = [] ↔ last.answer = .eof ∨ type ≠ .bin ∨ reads.any SocketRead.isShort = true) := by
  have hgathered := flatMap_bytes_concat reads hlast
  have hanswer : lastAnswer (reads ++ [last]) = some last.answer := lastAnswer_concat reads last
  have hsettled := h.1.phase
  rw [hended] at hsettled
  unfold receiverOf at hsettled
  unfold asStored
  split at hsettled
  · rename_i hbinary
    rw [if_pos hbinary]
    rcases hlast with heof | hfailed
    · have hnode := hsettled.eof (by rw [hanswer, heof])
      rw [gathered, hgathered] at hnode
      exact ⟨[], by rwa [List.append_nil], iff_of_true rfl (.inl heof)⟩
    · obtain ⟨padding, hnode, hpadding⟩ := hsettled.failed (by rw [hanswer, hfailed])
      rw [gathered, hgathered] at hnode
      refine ⟨padding, hnode, hpadding.trans ?_⟩
      simp [SocketRead.isShort, hfailed, hbinary]
  · rename_i hascii
    have hnode := hsettled (by rw [hanswer]; exact hlast.imp (congrArg some) (congrArg some))
    rw [gatheredText, hgathered] at hnode
    rw [if_neg hascii]
    exact ⟨[], by rwa [List.append_nil], iff_of_true rfl (.inr (.inl hascii))⟩

end Uploads

end FtpSession

namespace ServedSessions

variable {disk : Disk} {id : Uuid} {event : Event} {ftp : FtpSession} {asked : Event}
  {before during : List (Uuid × ServerEvent)}

/-- The request finds the session in this state, with the users of its host to ask. -/
def Finds (disk : Disk) (before : List (Uuid × ServerEvent)) (id : Uuid) (event : Event)
    (ftp : FtpSession) (asked : Event) : Prop :=
  ∃ served, (run (idle disk) before).process id = some served
    ∧ ftp = (served.onDisk (run (idle disk) before).store).ftp
    ∧ asked = event.against served.host.authManager

/-- The server behind the request. -/
def requested (disk : Disk) (before : List (Uuid × ServerEvent)) (id : Uuid) (event : Event) :
    ServedSessions := run (idle disk) (before ++ [(id, .session event)])

section Requests

variable {κ : Type}

theorem Finds.carries (h : Finds disk before id event ftp asked)
    {inv : List κ → FtpSession → Prop} (hinv : inv [] (ftp.step asked)) :
    Carries inv id [] (requested disk before id event) := by
  obtain ⟨served, hserved, rfl, rfl⟩ := h
  have hrun : requested disk before id event
      = (run (idle disk) before).step (id, .session event) := run_append before _ _
  unfold Carries
  rw [hrun, step_process_self hserved, step_store_self hserved]
  exact ⟨_, rfl, hinv⟩

theorem Finds.store_eq (h : Finds disk before id event ftp asked) :
    ftp.disk = (run (idle disk) before).store := by
  obtain ⟨served, -, rfl, -⟩ := h
  rfl

theorem Finds.tidy (h : Finds disk before id event ftp asked) : Tidy ftp := by
  obtain ⟨served, hserved, rfl, -⟩ := h
  have htidy : Tidy served.ftp :=
    session_invariant Tidy (fun _ _ _ => ⟨fun _ => rfl, fun hsome => absurd rfl hsome⟩)
      (fun _ event h => h.step event) (fun _ _ h => ⟨h.closed, h.busy⟩) disk before hserved
  exact ⟨htidy.closed, htidy.busy⟩

end Requests

section Uploads

variable {path : PPath} {operation : FileOperation} {reads : List SocketRead} {last : SocketRead}
  {told behind : List (Uuid × ServerEvent)}

theorem fits_of_reads {all : List SocketRead} (hreads : all = reads ++ [last])
    (hdata : ∀ read ∈ reads, read.Receives) (hlast : last.Ends) : ∀ read ∈ all, read.Fits := by
  intro read hread
  rw [hreads] at hread
  rcases List.mem_append.mp hread with hmem | hmem
  · exact (hdata read hmem).fits
  · obtain rfl := List.mem_singleton.mp hmem
    exact hlast.fits

/-- A host on which `joe` has the directory `srv`. -/
def joeHost : WfdeHost where
  id := none
  name := bytes "h"
  authManager := AuthManagerImpl.assign {} (bytes "joe") ⟨bytes "joe", [], oneMount⟩
  permissions := Permissions.empty
  protocols := []

/-- `joe` logs in on that host and is ready for a transfer. -/
def joins (id : Uuid) (type : String) : List (Uuid × ServerEvent) :=
  let told : List Event := [.start joeEnv, .written joeEnv true] ++ exchange "USER joe"
    ++ exchange type ++ exchange "PORT 127,0,0,1,4,1"
  (.connected joeHost true 2 :: told.map ServerEvent.session).map (Prod.mk id)

/-- The turns of a transfer for these answers. -/
def goesOn (id : Uuid) (answers : List Answer) : List (Uuid × ServerEvent) :=
  ((turns answers).map ServerEvent.session).map (Prod.mk id)

/-- The same behind the turns of somebody who makes a directory elsewhere. -/
def goesOnBeside (answers : List Answer) : List (Uuid × ServerEvent) :=
  (makesDir (bytes "tmp")).map (Prod.mk 2) ++ goesOn 1 answers

/-- The session that a request finds. -/
def found (disk : Disk) (before : List (Uuid × ServerEvent)) (id : Uuid) : FtpSession :=
  let w := run (idle disk) before
  ((w.process id).map fun served => (served.onDisk w.store).ftp).getD (fresh .empty disk 2)

theorem finds_found {host : WfdeHost}
    (hthere : ((run (idle disk) before).process id).isSome = true)
    (hhost : ∀ other running segmentSize,
      (id, .connected other running segmentSize) ∈ before → other = host) (event : Event) :
    Finds disk before id event (found disk before id) (event.against host.authManager) := by
  obtain ⟨served, hserved⟩ := Option.isSome_iff_exists.mp hthere
  obtain ⟨segmentSize, hconnected⟩ := (holds_run disk before id served hserved).connected
  have hsame : served.host = host := hhost _ _ _ (mem_eventsOf.mp hconnected)
  refine ⟨served, hserved, ?_, by rw [hsame]⟩
  rw [found, hserved]
  rfl

/-- What `joe` asks, with the users of that host to ask. -/
def joeAsks (line : String) : Event := (Event.request joeEnv (bytes line)).against joeHost.authManager

/-- An upload from its request to its end. -/
structure UploadRun (disk : Disk) (before : List (Uuid × ServerEvent)) (id : Uuid) (event : Event)
    (during : List (Uuid × ServerEvent)) (reads : List SocketRead) (last : SocketRead) : Prop where
  lives : Lives id (requested disk before id event) during
  returned : readsOf id (requested disk before id event) during = reads ++ [last]
  data : ∀ read ∈ reads, read.Receives
  ends : last.Ends
  ended : ¬ Transfers id ((requested disk before id event).run during)

theorem UploadRun.stored (h : UploadRun disk before id event during reads last)
    (hfinds : Finds disk before id event ftp asked) (hmoves : Moves ftp asked path operation)
    (hwrites : operation ≠ .read) (hreserved : Reserved told during {id} path)
    (htold : told = before ++ [(id, .session event)] ++ during ++ behind) :
    ∃ padding, ((requested disk before id event).run during).store.files.node path
        = some (.file (baseContent operation ((run (idle disk) before).store.files.node path)
          ++ asStored ftp.state.getType (reads.flatMap SocketRead.bytes) ++ padding))
      ∧ (padding = [] ↔ last.answer = .eof ∨ ftp.state.getType ≠ .bin
        ∨ reads.any SocketRead.isShort = true) := by
  have hcarries := hfinds.carries (hmoves.receivesAs hwrites hfinds.tidy)
  have hfits := fits_of_reads h.returned h.data h.ends
  obtain ⟨left, hleft, hreceives⟩ := hcarries.run
    (rule_receivesAs _ (hmoves.segment_step hfinds.tidy) path _)
    (hreserved.proceeds htold h.lives hfits)
  have hshown : Machine.trace step (shows socketReadOf id) (requested disk before id event) during
      = reads ++ [last] := h.returned
  rw [hshown, hfinds.store_eq] at hreceives
  have hended : left.ftp.transferFile = none := by
    by_contra hsome
    exact h.ended ⟨left, hleft, Option.isSome_iff_ne_none.mpr hsome⟩
  exact hreceives.stored hended h.ends

/-- **An upload on a busy server.** A session stores a file, on a server on which nobody else who takes
a turn meanwhile may change anything at or below it. When the data connection has come to its end or
failed and the transfer has ended with that, the file holds its base content and all that the session
has received, in order, as its type stores it. There is padding behind that if and only if the
connection failed in binary type and no read was short. -/
theorem upload_arrives (hfinds : Finds disk before id event ftp asked)
    (hmoves : Moves ftp asked path operation) (hwrites : operation ≠ .read)
    (hreserved : Reserved (before ++ [(id, .session event)] ++ during) during {id} path)
    (hrun : UploadRun disk before id event during reads last) :
    ∃ padding, ((requested disk before id event).run during).store.files.node path
        = some (.file (baseContent operation ((run (idle disk) before).store.files.node path)
          ++ asStored ftp.state.getType (reads.flatMap SocketRead.bytes) ++ padding))
      ∧ (padding = [] ↔ last.answer = .eof ∨ ftp.state.getType ≠ .bin
        ∨ reads.any SocketRead.isShort = true) :=
  hrun.stored hfinds hmoves hwrites hreserved (List.append_nil _).symm

theorem reserved_goesOn {told : List (Uuid × ServerEvent)} (answers : List Answer) (path : PPath) :
    Reserved told (goesOn id answers) {id} path := by
  intro turn hturn hother
  obtain ⟨_, -, rfl⟩ := List.mem_map.mp hturn
  exact absurd rfl hother

theorem reserved_goesOnBeside {told : List (Uuid × ServerEvent)}
    (htold : eventsOf 2 told = makesDir (bytes "tmp")) (answers : List Answer) :
    Reserved told (goesOnBeside answers) {1} [bytes "srv", bytes "a"] := by
  intro turn hturn hother foreign hforeign hbit
  rcases List.mem_append.mp hturn with hmem | hmem
  · obtain ⟨_, -, rfl⟩ := List.mem_map.mp hmem
    rw [htold] at hforeign
    rw [granted_makesDir (bytes "tmp") hforeign]
    decide
  · exact reserved_goesOn answers _ turn hmem hother foreign hforeign hbit

theorem eq_of_connected {host host' : WfdeHost} {running running' : Bool}
    {segmentSize segmentSize' : Nat} {told : List Event} {other : Uuid}
    (hmem : (id, .connected host running segmentSize)
      ∈ (.connected host' running' segmentSize' :: told.map ServerEvent.session).map (Prod.mk other)) :
    host = host' := by
  obtain ⟨first, hfirst, heq⟩ := List.mem_map.mp hmem
  obtain ⟨-, rfl⟩ := Prod.mk.inj heq
  rcases List.mem_cons.mp hfirst with hconnected | hsession
  · exact (ServerEvent.connected.inj hconnected).1
  · obtain ⟨_, -, heq⟩ := List.mem_map.mp hsession
    cases heq

theorem connected_joins {told : List (Uuid × ServerEvent)}
    (htold : ∀ turn ∈ told, (∃ other type, turn ∈ joins other type)
      ∨ ∃ event, turn.2 = .session event)
    (host : WfdeHost) (running : Bool) (segmentSize : Nat)
    (hmem : (id, .connected host running segmentSize) ∈ told) : host = joeHost := by
  rcases htold _ hmem with ⟨other, type, hjoins⟩ | ⟨event, hevent⟩
  · exact eq_of_connected hjoins
  · cases hevent

/-- The connection fails behind a read that was not short. -/
theorem upload_arrives_appended :
    ∃ padding, ((requested (oneFileDisk [7, 8]) (joins 1 "TYPE I") 1
          (.request joeEnv (bytes "APPE a"))).run (goesOnBeside [.done, .done, .done,
            .data [1, 2], .failed, .done])).store.files.node [bytes "srv", bytes "a"]
        = some (.file ([7, 8] ++ [1, 2] ++ padding)) ∧ padding ≠ [] := by
  have hfinds : Finds (oneFileDisk [7, 8]) (joins 1 "TYPE I") 1 (.request joeEnv (bytes "APPE a"))
      (found (oneFileDisk [7, 8]) (joins 1 "TYPE I") 1) (joeAsks "APPE a") :=
    finds_found (by decide +kernel) (connected_joins fun _ hmem => .inl ⟨_, _, hmem⟩) _
  have hmoves : Moves (found (oneFileDisk [7, 8]) (joins 1 "TYPE I") 1) (joeAsks "APPE a")
      [bytes "srv", bytes "a"] .append := by decide +kernel
  have hrun : UploadRun (oneFileDisk [7, 8]) (joins 1 "TYPE I") 1 (.request joeEnv (bytes "APPE a"))
      (goesOnBeside [.done, .done, .done, .data [1, 2], .failed, .done])
      [⟨2, .data [1, 2]⟩] ⟨2, .failed⟩ := by
    refine ⟨by decide +kernel, by decide +kernel, ?_, .inr rfl, by decide +kernel⟩
    intro read hread
    obtain rfl := List.mem_singleton.mp hread
    exact ⟨[1, 2], rfl, by decide, by decide⟩
  obtain ⟨padding, hnode, hpadding⟩ := upload_arrives hfinds hmoves (by decide)
    (reserved_goesOnBeside (by rfl) _) hrun
  refine ⟨padding, hnode, mt hpadding.mp ?_⟩
  decide +kernel

end Uploads

section Downloads

variable {source : Option PPath} {whole : Bytes} {reads : Nat}
  {told behind : List (Uuid × ServerEvent)}

/-- What a session has sent of a text. -/
structure Sends (ftp : FtpSession) (whole : Bytes) (left : FtpSession) (wire : Bytes) : Prop where
  sent : left.sent = ftp.sent ++ wire
  part : wire <+: whole
  whole : ∀ transfer, left.transferFile = some (.shuttingDown transfer) → wire = whole

theorem Finds.sends (hfinds : Finds disk before id event ftp asked)
    (hretrieves : Retrieves ftp asked source whole reads)
    (hreserved : ∀ path ∈ source, Reserved told during {id} path)
    (htold : told = before ++ [(id, .session event)] ++ during ++ behind)
    (hlives : Lives id (requested disk before id event) during) :
    ∃ left wire, ((requested disk before id event).run during).process id = some left
      ∧ Sends ftp whole left.ftp wire ∧ transferTurns id during ≤ reads + 8 := by
  have hdispatched := hretrieves.dispatched hfinds.tidy
  have hstart : ServesWithin source ftp.sent whole (reads + 8) [] (ftp.step asked) :=
    ⟨⟨_, hdispatched.serving, (Nat.zero_add _).le⟩, hdispatched.sent ▸ List.prefix_rfl⟩
  have hcarries := hfinds.carries hstart
  have hproceeds := proceeds_of_source hreserved htold hlives
  obtain ⟨left, hleft, ⟨turns, hserving, hbound⟩, hgrown⟩ :=
    hcarries.run (rule_serving source ftp.sent whole (reads + 8)) hproceeds
  obtain ⟨served, hserved, -⟩ := hcarries
  have hcount : _ = transferTurns id during := length_trace_turnOf hserved
  obtain ⟨wire, hwire⟩ := hgrown
  have hsent : left.ftp.sent = ftp.sent ++ wire := hwire.symm
  refine ⟨left, wire, hleft, ⟨hsent, ?_, fun transfer hshut => ?_⟩, ?_⟩
  · have hpart := serving_part hserving
    dsimp only [Served.onDisk] at hpart
    rwa [hsent, List.prefix_append_right_inj] at hpart
  · have hat := hserving.phase
    dsimp only [Served.onDisk] at hat
    rw [hshut] at hat
    have hall : left.ftp.sent = ftp.sent ++ whole := hat.2.1
    rwa [hsent, List.append_cancel_left_eq] at hall
  · rw [← hcount]
    exact (Nat.le_add_right _ turns).trans hbound

/-- **A download on a busy server.** A session retrieves a file or a listing, on a server on which
nobody else who takes a turn meanwhile may change anything at or below the file. What it sends is a
part of the content from its start, as long as it lasts and behind a failure, and all of it when the
data connection is shut down. The transfer takes no more turns than it has reads to do, and eight. -/
theorem download_sends (hfinds : Finds disk before id event ftp asked)
    (hretrieves : Retrieves ftp asked source whole reads)
    (hreserved : ∀ path ∈ source,
      Reserved (before ++ [(id, .session event)] ++ during) during {id} path)
    (hlives : Lives id (requested disk before id event) during) :
    ∃ left wire, ((requested disk before id event).run during).process id = some left
      ∧ Sends ftp whole left.ftp wire ∧ transferTurns id during ≤ reads + 8 :=
  hfinds.sends hretrieves hreserved (List.append_nil _).symm hlives

theorem download_sends_fetched :
    ∃ left wire, ((requested (oneFileDisk [7, 8, 9]) (joins 1 "TYPE I") 1
          (.request joeEnv (bytes "RETR a"))).run
            (goesOnBeside [.done, .done, .done, .done, .done])).process 1 = some left
      ∧ Sends (found (oneFileDisk [7, 8, 9]) (joins 1 "TYPE I") 1) [7, 8, 9] left.ftp wire
      ∧ transferTurns 1 (goesOnBeside [.done, .done, .done, .done, .done]) ≤ 3 + 8 := by
  have hfinds : Finds (oneFileDisk [7, 8, 9]) (joins 1 "TYPE I") 1 (.request joeEnv (bytes "RETR a"))
      (found (oneFileDisk [7, 8, 9]) (joins 1 "TYPE I") 1) (joeAsks "RETR a") :=
    finds_found (by decide +kernel) (connected_joins fun _ hmem => .inl ⟨_, _, hmem⟩) _
  have hmoves : Moves (found (oneFileDisk [7, 8, 9]) (joins 1 "TYPE I") 1) (joeAsks "RETR a")
      [bytes "srv", bytes "a"] .read := by decide +kernel
  have hnode : (found (oneFileDisk [7, 8, 9]) (joins 1 "TYPE I") 1).disk.files.node
      [bytes "srv", bytes "a"] = some (.file [7, 8, 9]) := by decide +kernel
  refine download_sends hfinds (.file hmoves hnode) (fun path hpath => ?_) (by decide +kernel)
  obtain rfl := Option.some.inj hpath
  exact reserved_goesOnBeside (by rfl) _

end Downloads

section RoundTrip

variable {path : PPath} {operation : FileOperation} {reads : List SocketRead} {last : SocketRead}
  {id' : Uuid} {event' asked' : Event} {ftp' : FtpSession}
  {between stored after told : List (Uuid × ServerEvent)}

/-- **What one session stores, another one retrieves.** An upload comes to the end of its data, and
later a session asks for the file. If nobody else changes it meanwhile or between them, what is sent
is the base content and the data of the upload, stored as the type of the one session has it and sent
as the type of the other has it. This is the data, if the types are the same, the file was empty and
the data is a text of that type. -/
theorem upload_downloads (hfinds : Finds disk before id event ftp asked)
    (hmoves : Moves ftp asked path operation) (hwrites : operation ≠ .read)
    (hrun : UploadRun disk before id event during reads last) (heof : last.answer = .eof)
    (hstored : stored = before ++ [(id, .session event)] ++ during ++ between)
    (hfinds' : Finds disk stored id' event' ftp' asked') (hmoves' : Moves ftp' asked' path .read)
    (hlives : Lives id' (requested disk stored id' event') after)
    (htold : told = stored ++ [(id', .session event')] ++ after)
    (hduring : Reserved told during {id} path) (hbetween : Reserved told between ∅ path)
    (hafter : Reserved told after {id'} path) :
    let received := reads.flatMap SocketRead.bytes
    let base := baseContent operation ((run (idle disk) before).store.files.node path)
    let whole := asSent ftp'.state.getType (base ++ asStored ftp.state.getType received)
    (∃ left wire, ((requested disk stored id' event').run after).process id' = some left
      ∧ Sends ftp' whole left.ftp wire)
    ∧ (base = [] → ftp'.state.getType = ftp.state.getType →
      IsWireText ftp.state.getType received → whole = received) := by
  intro received base whole
  have hupload : told = before ++ [(id, .session event)] ++ during
      ++ (between ++ [(id', .session event')] ++ after) := by
    simp only [htold, hstored, List.append_assoc]
  have hpause : told = before ++ [(id, .session event)] ++ during ++ between
      ++ ([(id', .session event')] ++ after) := by
    simp only [htold, hstored, List.append_assoc]
  obtain ⟨padding, hnode, hpadding⟩ := hrun.stored hfinds hmoves hwrites hduring hupload
  rw [hpadding.mpr (.inl heof), List.append_nil] at hnode
  have hrequest : (run (idle disk) (before ++ [(id, .session event)] ++ during)).store.files.node path
      = some (.file (base ++ asStored ftp.state.getType received)) := by
    rw [run_append]
    exact hnode
  have hkept := hbetween.node_run disk hpause
  rw [← hstored, ← hfinds'.store_eq] at hkept
  have hfound := hkept.trans hrequest
  refine ⟨?_, fun hbase htype htext => ?_⟩
  · have hreserved (other : PPath) (hother : other ∈ some path) : Reserved told after {id'} other := by
      obtain rfl := Option.some.inj hother
      exact hafter
    obtain ⟨left, wire, hleft, hsends, -⟩ := hfinds'.sends (.file hmoves' hfound) hreserved
      (htold.trans (List.append_nil _).symm) hlives
    exact ⟨left, wire, hleft, hsends⟩
  · calc
      whole = asSent ftp.state.getType ([] ++ asStored ftp.state.getType received) := by
        change asSent ftp'.state.getType (base ++ _) = _
        rw [htype, hbase]
      _ = received := htext.asSent_asStored

/-- Two sessions of `joe`. -/
def bothJoin : List (Uuid × ServerEvent) := joins 1 "TYPE A" ++ joins 3 "TYPE A"

/-- One of them stores a line that comes in two reads. -/
def lineStored : List (Uuid × ServerEvent) :=
  bothJoin ++ [(1, .session (.request joeEnv (bytes "STOR a")))]
    ++ goesOn 1 [.done, .done, .done, .data [cr], .data [lf], .eof, .done, .done]

theorem joe_bothJoin : ∀ turn ∈ bothJoin, (∃ other type, turn ∈ joins other type)
    ∨ ∃ event, turn.2 = .session event := by
  intro turn hturn
  rcases List.mem_append.mp hturn with hmem | hmem
  · exact .inl ⟨_, _, hmem⟩
  · exact .inl ⟨_, _, hmem⟩

theorem joe_lineStored : ∀ turn ∈ lineStored, (∃ other type, turn ∈ joins other type)
    ∨ ∃ event, turn.2 = .session event := by
  intro turn hturn
  rcases List.mem_append.mp hturn with hmem | hmem
  · rcases List.mem_append.mp hmem with hjoins | hstor
    · exact joe_bothJoin turn hjoins
    · obtain rfl := List.mem_singleton.mp hstor
      exact .inr ⟨_, rfl⟩
  · obtain ⟨_, hturns, rfl⟩ := List.mem_map.mp hmem
    obtain ⟨event, -, rfl⟩ := List.mem_map.mp hturns
    exact .inr ⟨event, rfl⟩

theorem upload_downloads_line :
    ∃ left wire, ((requested (oneFileDisk [7, 8]) lineStored 3 (.request joeEnv (bytes "RETR a"))).run
        (goesOn 3 [.done, .done, .done, .done])).process 3 = some left
      ∧ Sends (found (oneFileDisk [7, 8]) lineStored 3) [cr, lf] left.ftp wire := by
  have hfinds : Finds (oneFileDisk [7, 8]) bothJoin 1 (.request joeEnv (bytes "STOR a"))
      (found (oneFileDisk [7, 8]) bothJoin 1) (joeAsks "STOR a") :=
    finds_found (by decide +kernel) (connected_joins joe_bothJoin) _
  have hmoves : Moves (found (oneFileDisk [7, 8]) bothJoin 1) (joeAsks "STOR a")
      [bytes "srv", bytes "a"] .write := by decide +kernel
  have hrun : UploadRun (oneFileDisk [7, 8]) bothJoin 1 (.request joeEnv (bytes "STOR a"))
      (goesOn 1 [.done, .done, .done, .data [cr], .data [lf], .eof, .done, .done])
      [⟨1, .data [cr]⟩, ⟨1, .data [lf]⟩] ⟨1, .eof⟩ := by
    refine ⟨by decide +kernel, by decide +kernel, ?_, .inl rfl, by decide +kernel⟩
    intro read hread
    simp only [List.mem_cons, List.not_mem_nil, or_false] at hread
    rcases hread with rfl | rfl
    · exact ⟨[cr], rfl, by decide, by decide⟩
    · exact ⟨[lf], rfl, by decide, by decide⟩
  have hfinds' : Finds (oneFileDisk [7, 8]) lineStored 3 (.request joeEnv (bytes "RETR a"))
      (found (oneFileDisk [7, 8]) lineStored 3) (joeAsks "RETR a") :=
    finds_found (by decide +kernel) (connected_joins joe_lineStored) _
  have hmoves' : Moves (found (oneFileDisk [7, 8]) lineStored 3) (joeAsks "RETR a")
      [bytes "srv", bytes "a"] .read := by decide +kernel
  have hlives : Lives 3 (requested (oneFileDisk [7, 8]) lineStored 3 (.request joeEnv (bytes "RETR a")))
      (goesOn 3 [.done, .done, .done, .done]) := by decide +kernel
  have hnobody (told : List (Uuid × ServerEvent)) : Reserved told [] ∅ [bytes "srv", bytes "a"] :=
    fun _ hnone => by cases hnone
  obtain ⟨⟨left, wire, hleft, hsends⟩, htext⟩ := upload_downloads hfinds hmoves (by decide) hrun rfl
    (List.append_nil lineStored).symm hfinds' hmoves' hlives rfl (reserved_goesOn _ _) (hnobody _)
    (reserved_goesOn _ _)
  have hascii : (found (oneFileDisk [7, 8]) bothJoin 1).state.getType = .ascii := by decide +kernel
  have hascii' : (found (oneFileDisk [7, 8]) lineStored 3).state.getType = .ascii := by
    decide +kernel
  have hline := htext rfl (hascii'.trans hascii.symm) (.inr ⟨[lf], by decide⟩)
  rw [hline] at hsends
  exact ⟨left, wire, hleft, hsends⟩

end RoundTrip

end ServedSessions

end Wfde
