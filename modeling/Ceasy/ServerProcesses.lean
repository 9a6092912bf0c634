import Ceasy.StringView

set_option autoImplicit false

/-!
# The processes of the server

`ceasy_run` accepts connections and forks a child for each. A child starts with the descriptors that
the server has at the fork; the server and its children then run in any order. What a handler sends
is left open: it sends it on the descriptor that it is given, until it closes it.
-/
namespace Ceasy.Serving
open StringView Relation

/-- What a descriptor is open for: the socket of the server, or a connection by its number. -/
inductive Socket where
  | listening
  | client (number : ℕ)
deriving DecidableEq, Repr

abbrev Descriptors := ℕ → Option Socket

def Descriptors.put (descriptors : Descriptors) (fd : ℕ) (socket : Socket) : Descriptors :=
  Function.update descriptors fd (some socket)

def Descriptors.close (descriptors : Descriptors) (fd : ℕ) : Descriptors :=
  Function.update descriptors fd none

def noDescriptors : Descriptors := fun _ => none

/-- The descriptor is none where it is −1 in C. -/
structure HttpServer where
  socketFd : Option ℕ
  port : UInt16
  error : Bytes

def httpServerSetError (server : HttpServer) (message : Bytes) : HttpServer :=
  { server with error := message.take 255 }

/-- What the calls of `http_server_start` come to; an error has its text. -/
structure StartAnswers where
  socket : Except Bytes ℕ
  bind : Except Bytes Unit
  listen : Except Bytes Unit
  getsockname : Except Bytes UInt16

def httpServerStart (answers : StartAnswers) (descriptors : Descriptors) :
    Bool × HttpServer × Descriptors :=
  let server : HttpServer := ⟨none, 0, []⟩
  match answers.socket with
  | .error message => (false, httpServerSetError server message, descriptors)
  | .ok fd =>
    let opened := descriptors.put fd .listening
    match answers.bind with
    | .error message => (false, httpServerSetError server message, opened.close fd)
    | .ok _ =>
      match answers.listen with
      | .error message => (false, httpServerSetError server message, opened.close fd)
      | .ok _ =>
        match answers.getsockname with
        | .error message => (false, httpServerSetError server message, opened.close fd)
        | .ok port => (true, { server with socketFd := some fd, port := port }, opened)

/-- The descriptor of a connection, or none where there is an error. -/
def httpServerAccept (server : HttpServer) (answer : Except Bytes ℕ) : Option ℕ × HttpServer :=
  match server.socketFd with
  | none => (none, server)
  | some _ =>
    match answer with
    | .error message => (none, httpServerSetError server message)
    | .ok fd => (some fd, server)

def httpServerClose (server : HttpServer) (descriptors : Descriptors) : HttpServer × Descriptors :=
  match server.socketFd with
  | none => (server, descriptors)
  | some fd => ({ server with socketFd := none }, descriptors.close fd)

/-- Where `ceasy_run` is: before `http_server_accept`, before `fork`, before the connection is closed
on its side, behind the loop, or done. -/
inductive ServerPoint where
  | accepting
  | forking (clientFd : ℕ)
  | closing (clientFd : ℕ)
  | leaving
  | returned
deriving DecidableEq, Repr

/-- Where a child is: before `http_server_close`, in `ceasy_handle_client`, before `_exit`, or gone. -/
inductive ChildPoint where
  | started
  | handling
  | exiting
  | exited
deriving DecidableEq, Repr

/-- A child, with the number of the connection that had been accepted before the fork. -/
structure Child where
  number : ℕ
  clientFd : ℕ
  server : HttpServer
  descriptors : Descriptors
  point : ChildPoint

/-- What a child has sent, and for which socket its descriptor was open. -/
structure Sent where
  number : ℕ
  socket : Option Socket
  bytes : Bytes

structure System where
  point : ServerPoint
  server : HttpServer
  descriptors : Descriptors
  /-- Connections accepted so far. -/
  accepted : ℕ
  children : List Child
  sent : List Sent

/-- `ceasy_run` up to its loop. -/
def ceasyRun (configured : Bool) (answers : StartAnswers) (descriptors : Descriptors) : System :=
  if !configured then ⟨.returned, ⟨none, 0, []⟩, descriptors, 0, [], []⟩
  else
    match httpServerStart answers descriptors with
    | (false, server, descriptors) => ⟨.returned, server, descriptors, 0, [], []⟩
    | (true, server, descriptors) => ⟨.accepting, server, descriptors, 0, [], []⟩

def Child.closeServer (child : Child) : Child :=
  let (server, descriptors) := httpServerClose child.server child.descriptors
  { child with server := server, descriptors := descriptors, point := .handling }

def Child.closeClient (child : Child) : Child :=
  { child with descriptors := child.descriptors.close child.clientFd, point := .exiting }

/-- The descriptors of a process that is gone are closed. -/
def Child.exit (child : Child) : Child :=
  { child with descriptors := noDescriptors, point := .exited }

inductive ChildStep : Child → Child → Prop where
  | closesServer {child : Child} (hpoint : child.point = .started) : ChildStep child child.closeServer
  | closesClient {child : Child} (hpoint : child.point = .handling) : ChildStep child child.closeClient
  | exits {child : Child} (hpoint : child.point = .exiting) : ChildStep child child.exit
  | killed {child : Child} (hpoint : child.point ≠ .exited) : ChildStep child child.exit

inductive Step : System → System → Prop where
  /-- `EINTR`. -/
  | interrupted {system : System} {server : HttpServer} {message : Bytes}
      (hpoint : system.point = .accepting)
      (haccept : httpServerAccept system.server (.error message) = (none, server)) :
      Step system { system with server := server }
  | fails {system : System} {server : HttpServer} {message : Bytes} (hpoint : system.point = .accepting)
      (haccept : httpServerAccept system.server (.error message) = (none, server)) :
      Step system { system with point := .leaving, server := server }
  | accepts {system : System} {server : HttpServer} {fd clientFd : ℕ}
      (hpoint : system.point = .accepting) (hfree : system.descriptors fd = none)
      (haccept : httpServerAccept system.server (.ok fd) = (some clientFd, server)) :
      Step system { system with
        point := .forking clientFd, server := server
        descriptors := system.descriptors.put fd (.client system.accepted)
        accepted := system.accepted + 1 }
  | notForked {system : System} {clientFd : ℕ} (hpoint : system.point = .forking clientFd) :
      Step system { system with point := .closing clientFd }
  | forks {system : System} {clientFd : ℕ} (hpoint : system.point = .forking clientFd) :
      Step system { system with
        point := .closing clientFd
        children := system.children ++
          [⟨system.accepted - 1, clientFd, system.server, system.descriptors, .started⟩] }
  | closes {system : System} {clientFd : ℕ} (hpoint : system.point = .closing clientFd) :
      Step system { system with
        point := .accepting, descriptors := system.descriptors.close clientFd }
  | leaves {system : System} (hpoint : system.point = .leaving) :
      Step system { system with
        point := .returned
        server := (httpServerClose system.server system.descriptors).1
        descriptors := (httpServerClose system.server system.descriptors).2 }
  | child {system : System} {before after : List Child} {child next : Child}
      (hchildren : system.children = before ++ child :: after) (hstep : ChildStep child next) :
      Step system { system with children := before ++ next :: after }
  | sends {system : System} {child : Child} {bytes : Bytes} (hchild : child ∈ system.children)
      (hpoint : child.point = .handling) :
      Step system { system with
        sent := system.sent ++ [⟨child.number, child.descriptors child.clientFd, bytes⟩] }

def onlyDescriptor (fd : ℕ) (socket : Socket) : Descriptors := noDescriptors.put fd socket

def servedDescriptors (fd clientFd number : ℕ) : Descriptors :=
  (onlyDescriptor fd .listening).put clientFd (.client number)

def Child.Fine (child : Child) : Prop :=
  match child.point with
  | .started => ∃ fd, child.server.socketFd = some fd ∧ fd ≠ child.clientFd ∧
      child.descriptors = servedDescriptors fd child.clientFd child.number
  | .handling => child.descriptors = onlyDescriptor child.clientFd (.client child.number)
  | .exiting => child.descriptors = noDescriptors
  | .exited => child.descriptors = noDescriptors

/-- Between an acceptance and the closing, the connection is the last one. -/
def System.Fine (system : System) : Prop :=
  match system.point with
  | .accepting => ∃ fd, system.server.socketFd = some fd ∧ system.descriptors = onlyDescriptor fd .listening
  | .forking clientFd => ∃ fd number, system.server.socketFd = some fd ∧ fd ≠ clientFd ∧
      system.accepted = number + 1 ∧ system.descriptors = servedDescriptors fd clientFd number ∧
      ∀ earlier ∈ system.children.map Child.number, earlier < number
  | .closing clientFd => ∃ fd number, system.server.socketFd = some fd ∧ fd ≠ clientFd ∧
      system.accepted = number + 1 ∧ system.descriptors = servedDescriptors fd clientFd number
  | .leaving => ∃ fd, system.server.socketFd = some fd ∧ system.descriptors = onlyDescriptor fd .listening
  | .returned => system.descriptors = noDescriptors

structure Fine (system : System) : Prop where
  server : system.Fine
  children : ∀ child ∈ system.children, child.Fine ∧ child.number < system.accepted
  ascending : (system.children.map Child.number).Pairwise (· < ·)
  sent : ∀ sent ∈ system.sent, sent.socket = some (.client sent.number) ∧
    sent.number ∈ system.children.map Child.number

variable {system next : System} {child : Child} {server : HttpServer} {fd clientFd number : ℕ}
  {socket : Socket}

@[simp]
theorem put_close (descriptors : Descriptors) (h : descriptors fd = none) :
    (descriptors.put fd socket).close fd = descriptors := by
  unfold Descriptors.put Descriptors.close
  rw [Function.update_idem, ← h, Function.update_eq_self]

theorem onlyDescriptor_close : (onlyDescriptor fd socket).close fd = noDescriptors := put_close _ rfl

theorem onlyDescriptor_other (h : clientFd ≠ fd) : onlyDescriptor fd socket clientFd = none :=
  Function.update_of_ne h ..

theorem servedDescriptors_closeClient (h : fd ≠ clientFd) :
    (servedDescriptors fd clientFd number).close clientFd = onlyDescriptor fd .listening :=
  put_close _ (onlyDescriptor_other h.symm)

theorem servedDescriptors_closeServer (h : fd ≠ clientFd) :
    (servedDescriptors fd clientFd number).close fd = onlyDescriptor clientFd (.client number) := by
  unfold servedDescriptors onlyDescriptor Descriptors.put Descriptors.close
  rw [Function.update_comm h.symm, Function.update_idem]
  exact congrArg (Function.update · clientFd _) (Function.update_eq_self fd noDescriptors)

theorem onlyDescriptor_some {found : Socket} (h : onlyDescriptor fd socket clientFd = some found) :
    clientFd = fd ∧ found = socket := by
  by_cases hfd : clientFd = fd
  · rw [hfd, onlyDescriptor, Descriptors.put, Function.update_self] at h
    exact ⟨hfd, (Option.some.inj h).symm⟩
  · rw [onlyDescriptor_other hfd] at h
    cases h

theorem servedDescriptors_some {open_ last : ℕ}
    (h : servedDescriptors fd clientFd last open_ = some (.client number)) :
    open_ = clientFd ∧ number = last := by
  by_cases hfd : open_ = clientFd
  · rw [hfd, servedDescriptors, Descriptors.put, Function.update_self] at h
    cases h
    exact ⟨hfd, rfl⟩
  · rw [servedDescriptors, Descriptors.put, Function.update_of_ne hfd] at h
    cases (onlyDescriptor_some h).2

theorem httpServerAccept_error (h : system.server.socketFd = some fd) {message : Bytes}
    (haccept : httpServerAccept system.server (.error message) = (none, server)) :
    server.socketFd = some fd := by
  rw [httpServerAccept, h] at haccept
  rw [← (Prod.mk.inj haccept).2]
  exact h

theorem httpServerAccept_ok {accepted : ℕ} (h : system.server.socketFd = some fd)
    (haccept : httpServerAccept system.server (.ok accepted) = (some clientFd, server)) :
    clientFd = accepted ∧ server = system.server := by
  rw [httpServerAccept, h] at haccept
  obtain ⟨hfd, hserver⟩ := Prod.mk.inj haccept
  exact ⟨(Option.some.inj hfd).symm, hserver.symm⟩

theorem ChildStep.fine {next : Child} (h : ChildStep child next) (hfine : child.Fine) :
    next.Fine ∧ next.number = child.number := by
  cases h with
  | closesServer hpoint =>
    rw [Child.Fine, hpoint] at hfine
    obtain ⟨fd, hsocket, hother, hdescriptors⟩ := hfine
    have hclose : httpServerClose child.server child.descriptors =
        ({ child.server with socketFd := none }, child.descriptors.close fd) := by
      rw [httpServerClose, hsocket]
    refine ⟨?_, rfl⟩
    change (httpServerClose child.server child.descriptors).2 = _
    rw [hclose, hdescriptors]
    exact servedDescriptors_closeServer hother
  | closesClient hpoint =>
    rw [Child.Fine, hpoint] at hfine
    refine ⟨?_, rfl⟩
    change child.descriptors.close child.clientFd = noDescriptors
    rw [hfine, onlyDescriptor_close]
  | exits => exact ⟨rfl, rfl⟩
  | killed => exact ⟨rfl, rfl⟩

theorem Step.fine (h : Step system next) (hfine : Fine system) : Fine next := by
  have hserver := hfine.server
  cases h with
  | interrupted hpoint haccept =>
    rw [System.Fine, hpoint] at hserver
    obtain ⟨fd, hsocket, hdescriptors⟩ := hserver
    refine ⟨?_, hfine.children, hfine.ascending, hfine.sent⟩
    rw [System.Fine, hpoint]
    exact ⟨fd, httpServerAccept_error hsocket haccept, hdescriptors⟩
  | fails hpoint haccept =>
    rw [System.Fine, hpoint] at hserver
    obtain ⟨fd, hsocket, hdescriptors⟩ := hserver
    exact ⟨⟨fd, httpServerAccept_error hsocket haccept, hdescriptors⟩, hfine.children, hfine.ascending,
      hfine.sent⟩
  | @accepts server given clientFd hpoint hfree haccept =>
    rw [System.Fine, hpoint] at hserver
    obtain ⟨fd, hsocket, hdescriptors⟩ := hserver
    obtain ⟨hgiven, hsame⟩ := httpServerAccept_ok hsocket haccept
    subst hgiven hsame
    rw [hdescriptors] at hfree
    have hother : fd ≠ clientFd := by
      rintro rfl
      rw [onlyDescriptor, Descriptors.put, Function.update_self] at hfree
      cases hfree
    refine ⟨⟨fd, system.accepted, hsocket, hother, rfl, ?_, fun earlier hearlier => ?_⟩,
      fun child hchild => ?_, hfine.ascending, hfine.sent⟩
    · rw [hdescriptors]
      rfl
    · obtain ⟨child, hchild, rfl⟩ := List.mem_map.mp hearlier
      exact (hfine.children child hchild).2
    · exact ⟨(hfine.children child hchild).1, Nat.lt_succ_of_lt (hfine.children child hchild).2⟩
  | notForked hpoint =>
    rw [System.Fine, hpoint] at hserver
    obtain ⟨fd, number, hsocket, hother, haccepted, hdescriptors, -⟩ := hserver
    exact ⟨⟨fd, number, hsocket, hother, haccepted, hdescriptors⟩, hfine.children, hfine.ascending,
      hfine.sent⟩
  | @forks clientFd hpoint =>
    rw [System.Fine, hpoint] at hserver
    obtain ⟨fd, number, hsocket, hother, haccepted, hdescriptors, hbefore⟩ := hserver
    have hnumber : system.accepted - 1 = number := by omega
    refine ⟨⟨fd, number, hsocket, hother, haccepted, hdescriptors⟩, ?_, ?_, ?_⟩
    · intro child hchild
      rcases List.mem_append.mp hchild with hold | hnew
      · exact hfine.children child hold
      · rw [List.mem_singleton.mp hnew]
        refine ⟨⟨fd, hsocket, hother, ?_⟩, ?_⟩
        · change system.descriptors = servedDescriptors fd clientFd (system.accepted - 1)
          rw [hdescriptors, hnumber]
        · change system.accepted - 1 < system.accepted
          omega
    · dsimp only
      rw [List.map_append, List.pairwise_append]
      refine ⟨hfine.ascending, List.pairwise_singleton _ _, fun first hfirst last hlast => ?_⟩
      rw [List.map_singleton, List.mem_singleton] at hlast
      rw [hlast, hnumber]
      exact hbefore first hfirst
    · intro sent hsent
      obtain ⟨hsocket, hknown⟩ := hfine.sent sent hsent
      refine ⟨hsocket, ?_⟩
      rw [List.map_append]
      exact List.mem_append_left _ hknown
  | closes hpoint =>
    rw [System.Fine, hpoint] at hserver
    obtain ⟨fd, number, hsocket, hother, haccepted, hdescriptors⟩ := hserver
    refine ⟨⟨fd, hsocket, ?_⟩, hfine.children, hfine.ascending, hfine.sent⟩
    dsimp only
    rw [hdescriptors, servedDescriptors_closeClient hother]
  | leaves hpoint =>
    rw [System.Fine, hpoint] at hserver
    obtain ⟨fd, hsocket, hdescriptors⟩ := hserver
    refine ⟨?_, hfine.children, hfine.ascending, hfine.sent⟩
    change (httpServerClose system.server system.descriptors).2 = noDescriptors
    rw [httpServerClose, hsocket, hdescriptors]
    exact onlyDescriptor_close
  | @child before after child next hchildren hstep =>
    have hmember : child ∈ system.children := hchildren ▸ List.mem_append_right _ List.mem_cons_self
    obtain ⟨hnext, hnumber⟩ := hstep.fine (hfine.children child hmember).1
    have hnumbers : (before ++ next :: after).map Child.number = system.children.map Child.number := by
      rw [hchildren, List.map_append, List.map_append, List.map_cons, List.map_cons, hnumber]
    refine ⟨?_, fun other hother => ?_, ?_, ?_⟩
    · rw [System.Fine] at hserver ⊢
      dsimp only
      rw [hnumbers]
      exact hserver
    · rcases List.mem_append.mp hother with hbefore | hafter
      · exact hfine.children other (hchildren ▸ List.mem_append_left _ hbefore)
      · rcases List.mem_cons.mp hafter with rfl | hrest
        · exact ⟨hnext, hnumber ▸ (hfine.children child hmember).2⟩
        · exact hfine.children other
            (hchildren ▸ List.mem_append_right _ (List.mem_cons_of_mem child hrest))
    · dsimp only
      rw [hnumbers]
      exact hfine.ascending
    · dsimp only
      rw [hnumbers]
      exact hfine.sent
  | @sends child bytes hchild hpoint =>
    refine ⟨hserver, hfine.children, hfine.ascending, fun sent hsent => ?_⟩
    rcases List.mem_append.mp hsent with hold | hnew
    · exact hfine.sent sent hold
    · have hdescriptors := (hfine.children child hchild).1
      rw [Child.Fine, hpoint] at hdescriptors
      rw [List.mem_singleton.mp hnew]
      refine ⟨?_, List.mem_map_of_mem hchild⟩
      dsimp only
      rw [hdescriptors]
      exact Function.update_self ..

theorem httpServerStart_fine (answers : StartAnswers) :
    ((httpServerStart answers noDescriptors).1 = false ∧
        (httpServerStart answers noDescriptors).2.2 = noDescriptors) ∨
      (httpServerStart answers noDescriptors).1 = true ∧ ∃ fd,
        (httpServerStart answers noDescriptors).2.1.socketFd = some fd ∧
        (httpServerStart answers noDescriptors).2.2 = onlyDescriptor fd .listening := by
  unfold httpServerStart
  cases answers.socket with
  | error message => exact .inl ⟨rfl, rfl⟩
  | ok fd =>
    cases answers.bind with
    | error message => exact .inl ⟨rfl, onlyDescriptor_close⟩
    | ok bound =>
      cases answers.listen with
      | error message => exact .inl ⟨rfl, onlyDescriptor_close⟩
      | ok listening =>
        cases answers.getsockname with
        | error message => exact .inl ⟨rfl, onlyDescriptor_close⟩
        | ok port => exact .inr ⟨rfl, fd, rfl, rfl⟩

theorem ceasyRun_fine (configured : Bool) (answers : StartAnswers) :
    Fine (ceasyRun configured answers noDescriptors) := by
  have hnone : ∀ {system : System}, system.Fine → system.children = [] → system.sent = [] → Fine system := by
    intro system hserver hchildren hsent
    refine ⟨hserver, ?_, ?_, ?_⟩
    · rw [hchildren]
      exact fun child hchild => absurd hchild List.not_mem_nil
    · rw [hchildren]
      exact .nil
    · rw [hsent]
      exact fun sent hsent => absurd hsent List.not_mem_nil
  unfold ceasyRun
  cases configured with
  | false => exact hnone rfl rfl rfl
  | true =>
    have hstart := httpServerStart_fine answers
    rw [Bool.not_true, if_neg Bool.false_ne_true]
    generalize httpServerStart answers noDescriptors = started at hstart
    obtain ⟨success, server, descriptors⟩ := started
    rcases hstart with ⟨rfl, hclosed⟩ | ⟨rfl, hopened⟩
    · exact hnone hclosed rfl rfl
    · exact hnone hopened rfl rfl

structure Apart (system : System) : Prop where
  /-- The server has only its own socket whenever it waits, and none once it has returned. -/
  waiting : system.point = .accepting → ∃ fd, system.server.socketFd = some fd ∧
    system.descriptors = onlyDescriptor fd .listening
  returned : system.point = .returned → system.descriptors = noDescriptors
  /-- A handler has only the connection that its child was forked for. -/
  handling : ∀ child ∈ system.children, child.point = .handling →
    child.descriptors = onlyDescriptor child.clientFd (.client child.number)
  gone : ∀ child ∈ system.children, child.point = .exited → child.descriptors = noDescriptors
  /-- There is at most one child for a connection. -/
  once : (system.children.map Child.number).Nodup
  /-- What has been sent has been sent by the child of the connection. -/
  sent : ∀ sent ∈ system.sent, sent.socket = some (.client sent.number) ∧
    sent.number ∈ system.children.map Child.number
  /-- The server has a connection open only until it has forked and closed it, and a child its own only
  until its handler closes it. -/
  server : ∀ fd number, system.descriptors fd = some (.client number) →
    number + 1 = system.accepted ∧ (system.point = .forking fd ∨ system.point = .closing fd)
  child : ∀ child ∈ system.children, ∀ fd number, child.descriptors fd = some (.client number) →
    number = child.number ∧ fd = child.clientFd ∧ (child.point = .started ∨ child.point = .handling)

theorem Child.Fine.holds (h : child.Fine) (hopen : child.descriptors fd = some (.client number)) :
    number = child.number ∧ fd = child.clientFd ∧ (child.point = .started ∨ child.point = .handling) := by
  cases hpoint : child.point with
  | started =>
    rw [Child.Fine, hpoint] at h
    obtain ⟨serverFd, -, -, hdescriptors⟩ := h
    rw [hdescriptors] at hopen
    obtain ⟨hfd, hnumber⟩ := servedDescriptors_some hopen
    exact ⟨hnumber, hfd, .inl rfl⟩
  | handling =>
    rw [Child.Fine, hpoint] at h
    dsimp only at h
    rw [h] at hopen
    obtain ⟨hfd, hsocket⟩ := onlyDescriptor_some hopen
    cases hsocket
    exact ⟨rfl, hfd, .inr rfl⟩
  | exiting =>
    rw [Child.Fine, hpoint] at h
    dsimp only at h
    rw [h] at hopen
    cases hopen
  | exited =>
    rw [Child.Fine, hpoint] at h
    dsimp only at h
    rw [h] at hopen
    cases hopen

theorem System.Fine.holds (h : system.Fine) (hopen : system.descriptors fd = some (.client number)) :
    number + 1 = system.accepted ∧ (system.point = .forking fd ∨ system.point = .closing fd) := by
  have hlistening : ∀ {serverFd : ℕ}, system.descriptors ≠ onlyDescriptor serverFd .listening := by
    intro serverFd hdescriptors
    rw [hdescriptors] at hopen
    cases (onlyDescriptor_some hopen).2
  cases hpoint : system.point with
  | accepting =>
    rw [System.Fine, hpoint] at h
    obtain ⟨serverFd, -, hdescriptors⟩ := h
    exact absurd hdescriptors hlistening
  | forking clientFd =>
    rw [System.Fine, hpoint] at h
    obtain ⟨serverFd, last, -, -, haccepted, hdescriptors, -⟩ := h
    rw [hdescriptors] at hopen
    obtain ⟨rfl, rfl⟩ := servedDescriptors_some hopen
    exact ⟨haccepted.symm, .inl rfl⟩
  | closing clientFd =>
    rw [System.Fine, hpoint] at h
    obtain ⟨serverFd, last, -, -, haccepted, hdescriptors⟩ := h
    rw [hdescriptors] at hopen
    obtain ⟨rfl, rfl⟩ := servedDescriptors_some hopen
    exact ⟨haccepted.symm, .inr rfl⟩
  | leaving =>
    rw [System.Fine, hpoint] at h
    obtain ⟨serverFd, -, hdescriptors⟩ := h
    exact absurd hdescriptors hlistening
  | returned =>
    rw [System.Fine, hpoint] at h
    dsimp only at h
    rw [h] at hopen
    cases hopen

theorem Fine.apart (h : Fine system) : Apart system where
  waiting hpoint := by
    have hserver := h.server
    rwa [System.Fine, hpoint] at hserver
  returned hpoint := by
    have hserver := h.server
    rwa [System.Fine, hpoint] at hserver
  handling child hchild hpoint := by
    have hfine := (h.children child hchild).1
    rwa [Child.Fine, hpoint] at hfine
  gone child hchild hpoint := by
    have hfine := (h.children child hchild).1
    rwa [Child.Fine, hpoint] at hfine
  once := h.ascending.imp fun hless => Nat.ne_of_lt hless
  sent := h.sent
  server fd number hopen := h.server.holds hopen
  child child hchild fd number hopen := (h.children child hchild).1.holds hopen

/-- In whatever order the server and its children run, no process has a connection of another. -/
theorem processes_apart {configured : Bool} {answers : StartAnswers}
    (h : ReflTransGen Step (ceasyRun configured answers noDescriptors) system) : Apart system := by
  refine Fine.apart ?_
  induction h with
  | refl => exact ceasyRun_fine configured answers
  | tail hrun hstep ih => exact hstep.fine ih

def servedAnswers : StartAnswers := ⟨.ok 3, .ok (), .ok (), .ok 8080⟩

def runningServer : HttpServer := ⟨some 3, 8080, []⟩

/-- The child of a first connection, whose handler has the connection at 4. -/
def firstChild : Child :=
  Child.closeServer ⟨0, 4, runningServer, servedDescriptors 3 4 0, .started⟩

/-- A second connection has been accepted while the first is answered, and its descriptor is 4 too. -/
def secondAccepted : System where
  point := .forking 4
  server := runningServer
  descriptors := ((servedDescriptors 3 4 0).close 4).put 4 (.client 1)
  accepted := 2
  children := [firstChild]
  sent := [⟨0, firstChild.descriptors 4, sv "HTTP/1.1 200 OK"⟩]

theorem processes_apart_second : Apart secondAccepted := by
  refine @processes_apart _ true servedAnswers ?_
  have haccepted := ReflTransGen.refl.tail
    (@Step.accepts (ceasyRun true servedAnswers noDescriptors) runningServer 4 4 rfl rfl rfl)
  have hforked := haccepted.tail (.forks rfl)
  have hclosed := hforked.tail (.closes rfl)
  have hstarted := hclosed.tail (@Step.child _ [] [] _ _ rfl (.closesServer rfl))
  have hsent := hstarted.tail (@Step.sends _ firstChild (sv "HTTP/1.1 200 OK") (List.mem_singleton_self _) rfl)
  exact hsent.tail (@Step.accepts _ runningServer 4 4 rfl rfl rfl)

end Ceasy.Serving
