/-
# Registering stations

Any number of clients post ground stations at the same time. Each request looks its name up,
inserts its row and commits, in a session of its own, and anything may happen in between. Two
requests may both find a name free; then the unique constraint lets the second insert wait,
and refuses it when the first one commits.

The response of a request is on record when its session is closed. The bodies have passed the
validation, and `gen_random_uuid` returns ids that are not in use. PostgreSQL has no text with
U+0000, so a request with such a name ends at its first statement, with an exception that no
handler expects.
-/

import Mathlib.Data.Fintype.EquivFin
import Mathlib.Tactic.NormNum
import Apsis.Library.System
import Apsis.Tracking.Tables

namespace Apsis.Tracking.Registration

open Apsis.Library Apsis.Core

universe u

/-! ## Requests and responses -/

/-- `GroundStationCreate`, a body that has passed the validation. -/
structure GroundStationCreate where
  name : Text
  latitude : ℚ
  longitude : ℚ
  altitudeM : ℚ
  minLength : 1 ≤ name.length
  maxLength : name.length ≤ 255
  latitudeBounds : -90 ≤ latitude ∧ latitude ≤ 90
  longitudeBounds : -180 ≤ longitude ∧ longitude ≤ 180
  altitudeBounds : -500 ≤ altitudeM ∧ altitudeM ≤ 100000

/-- `GroundStationRead`, without its timestamps. -/
structure GroundStationRead where
  id : Uuid
  name : Text
  latitude : ℚ
  longitude : ℚ
  altitudeM : ℚ
  deriving DecidableEq

/-- The body of a response. -/
inductive Body
  | station (read : GroundStationRead)
  | /-- `{"detail": detail, "code": code}` -/
    error (detail code : Text)
  | text (content : Text)
  deriving DecidableEq

/-- A response to `POST /ground-stations`. -/
structure Response where
  status : ℕ
  body : Body
  deriving DecidableEq

/-- The exceptions that may end a request. -/
inductive RegisterError
  | /-- `ConflictError(message)` -/
    conflict (message : Text)
  | /-- `IntegrityError` -/
    integrity
  | /-- Any other exception of the database. -/
    database
  deriving DecidableEq

/-- `register_exception_handlers`; what has no handler is an internal error. -/
def RegisterError.response : RegisterError → Response
  | .conflict message => ⟨409, .error message "conflict".toList⟩
  | .integrity => ⟨409, .error "Integrity conflict".toList "integrity_conflict".toList⟩
  | .database => ⟨500, .text "Internal Server Error".toList⟩

/-- `ConflictError(f"ground station already exists: ...")` -/
def alreadyExists (name : Text) : RegisterError :=
  .conflict ("ground station already exists: ".toList ++ name)

/-- The row that the use case creates, with the id that the database generates. -/
def stationOf (id : Uuid) (request : GroundStationCreate) : GroundStation where
  id := id
  name := request.name
  location := (request.longitude, request.latitude)
  altitudeM := request.altitudeM

/-- `_to_read` -/
def toRead (station : GroundStation) : GroundStationRead where
  id := station.id
  name := station.name
  latitude := station.location.2
  longitude := station.location.1
  altitudeM := station.altitudeM

/-- The response to a request that has created a station. -/
def created (station : GroundStation) : Response := ⟨201, .station (toRead station)⟩

/-- The primary key and the unique constraint on the name. -/
def conflicts (first second : GroundStation) : Bool :=
  decide (first.id = second.id) || decide (first.name = second.name)

/-! ## The system -/

/-- Where a request is. -/
inductive Phase
  | /-- Before `get_by_name`. -/
    checking
  | /-- The name is free; before `create`. -/
    inserting
  | /-- The row is inserted; before the commit. -/
    flushed (station : GroundStation)
  | /-- An exception is raised; before the rollback. -/
    raised (error : RegisterError)
  | answered (response : Response)
  deriving DecidableEq

/-- The table of stations and the clients. The transactions of the clients bear their names;
`none` stands for those before. -/
structure State (W : Type u) where
  stations : Store GroundStation (Option W)
  phase : W → Phase

/-- What a client's request does next. -/
inductive Action (W : Type u)
  | check (client : W)
  | insert (client : W) (id : Uuid)
  | commit (client : W)
  | rollback (client : W)

variable {W : Type u}

/-- The stations that are registered at the start. -/
structure Stations extends Table GroundStation.id where
  names : (rows.map GroundStation.name).Nodup

variable [DecidableEq W]

/-- The request of the client goes on to another phase. -/
def State.enter (s : State W) (client : W) (phase : Phase) : State W :=
  { s with phase := Function.update s.phase client phase }

section Enter

variable (s : State W) (client : W) (phase : Phase)

@[simp] theorem State.enter_stations : (s.enter client phase).stations = s.stations := rfl

@[simp]
theorem State.enter_phase_self : (s.enter client phase).phase client = phase := by
  simp [enter]

@[simp]
theorem State.enter_phase_of_ne {other : W} (hne : other ≠ client) :
    (s.enter client phase).phase other = s.phase other := by
  simp [enter, hne]

end Enter

section Step

variable (request : W → GroundStationCreate)

/-- One step of a request. -/
def step (s : State W) : Action W → Option (State W)
  | .check client =>
      match s.phase client with
      | .checking =>
          if Text.hasNul (request client).name then some (s.enter client (.raised .database))
          else if s.stations.current (fun row =>
              decide (row.name = (request client).name)) ≠ [] then
            some (s.enter client (.raised (alreadyExists (request client).name)))
          else some (s.enter client .inserting)
      | _ => none
  | .insert client id =>
      match s.phase client with
      | .inserting =>
          if id ∈ s.stations.versions.map (fun version => version.row.id) then none
          else
            match s.stations.insert (some client) conflicts (stationOf id (request client)) with
            | .waits => none
            | .refused => some (s.enter client (.raised .integrity))
            | .inserted stations =>
                some (({ s with stations := stations } : State W).enter client
                  (.flushed (stationOf id (request client))))
      | _ => none
  | .commit client =>
      match s.phase client with
      | .flushed station =>
          some (({ s with stations := s.stations.commit (some client) } : State W).enter client
            (.answered (created station)))
      | _ => none
  | .rollback client =>
      match s.phase client with
      | .raised error =>
          some (({ s with stations := s.stations.rollback (some client) } : State W).enter client
            (.answered error.response))
      | _ => none

/-- The requests come in while these stations are registered. -/
def registration (start : Stations) : System (State W) (Action W) where
  init s := s.stations = ⟨start.rows.map fun row => ⟨row, none, none⟩, [none]⟩ ∧
    ∀ client, s.phase client = .checking
  step := step request

end Step

/-! ## The property -/

omit [DecidableEq W] in
/-- The request is answered 201. -/
def IsCreated (s : State W) (client : W) : Prop :=
  ∃ station, s.phase client = .answered (created station)

omit [DecidableEq W] in
/-- The request has finished. -/
def IsFinished (s : State W) (client : W) : Prop :=
  ∃ response, s.phase client = .answered response

omit [DecidableEq W] in
/-- The table has no row of the request, not even one that is rolled back. -/
def LeavesNoTrace (s : State W) (client : W) : Prop :=
  ∀ version ∈ s.stations.versions, version.insertedBy ≠ some client

/-- The stations as everyone sees them. -/
def State.rows (s : State W) : List GroundStation := s.stations.current fun _ => true

/-- Registration is as if the requests came one after the other, as far as these names are
concerned. -/
structure Linearizes (ok : Text → Prop) (request : W → GroundStationCreate)
    (start : Stations) (s : State W) : Prop where
  /-- Committed names are unique. -/
  unique : (s.rows.map GroundStation.name).Nodup
  /-- Of the requests for a new name one is answered 201, when all have finished. -/
  once : ∀ name, ok name → (∃ client, (request client).name = name) →
    name ∉ start.rows.map GroundStation.name →
    (∀ client, (request client).name = name → IsFinished s client) →
      ∃! client, (request client).name = name ∧ IsCreated s client
  /-- No request for a name that was there is. -/
  present : ∀ client, (request client).name ∈ start.rows.map GroundStation.name →
    ¬ IsCreated s client
  /-- All others are answered 409, and nothing is left of them. -/
  others : ∀ client, ok (request client).name → IsFinished s client → ¬ IsCreated s client →
    (s.phase client = .answered (alreadyExists (request client).name).response ∨
      s.phase client = .answered RegisterError.integrity.response) ∧ LeavesNoTrace s client
  /-- A request that is answered 201 has its own row, the only one with its name. -/
  stored : ∀ client, IsCreated s client → ∃ id,
    s.phase client = .answered (created (stationOf id (request client))) ∧
    stationOf id (request client) ∈ s.rows ∧
    ∀ row ∈ s.rows, row.name = (request client).name → row = stationOf id (request client)
  /-- The other rows are those that were there. -/
  rows : ∀ row, row ∈ s.rows ↔ row ∈ start.rows ∨
    ∃ client, s.phase client = .answered (created row) ∧ row = stationOf row.id (request client)

/-! ## What a step does -/

/-- The effect of a step, by kind. -/
inductive StepEffect (request : W → GroundStationCreate) (s : State W) : W → State W → Prop
  | /-- The name cannot be looked up. -/
    unreadable {client : W} (hphase : s.phase client = .checking)
      (hname : Text.hasNul (request client).name = true) :
      StepEffect request s client (s.enter client (.raised .database))
  | /-- The name is taken. -/
    taken {client : W} {row : GroundStation} (hphase : s.phase client = .checking)
      (hname : Text.hasNul (request client).name = false) (hmem : row ∈ s.rows)
      (hsame : row.name = (request client).name) :
      StepEffect request s client (s.enter client (.raised (alreadyExists (request client).name)))
  | /-- The name is free. -/
    free {client : W} (hphase : s.phase client = .checking)
      (hname : Text.hasNul (request client).name = false) :
      StepEffect request s client (s.enter client .inserting)
  | /-- The constraint refuses the row. -/
    refused {client : W} {id : Uuid} (hphase : s.phase client = .inserting)
      (hid : ∀ version ∈ s.stations.versions, version.row.id ≠ id)
      (hrefused : s.stations.insert (some client) conflicts (stationOf id (request client)) =
        .refused) :
      StepEffect request s client (s.enter client (.raised .integrity))
  | inserted {client : W} {id : Uuid} {stations : Store GroundStation (Option W)}
      (hphase : s.phase client = .inserting)
      (hinserted : s.stations.insert (some client) conflicts (stationOf id (request client)) =
        .inserted stations) :
      StepEffect request s client (({ s with stations := stations } : State W).enter client
        (.flushed (stationOf id (request client))))
  | commit {client : W} {station : GroundStation} (hphase : s.phase client = .flushed station) :
      StepEffect request s client
        (({ s with stations := s.stations.commit (some client) } : State W).enter client
          (.answered (created station)))
  | rollback {client : W} {error : RegisterError} (hphase : s.phase client = .raised error) :
      StepEffect request s client
        (({ s with stations := s.stations.rollback (some client) } : State W).enter client
          (.answered error.response))

variable {request : W → GroundStationCreate} {start : Stations} {s s' : State W}

theorem step_effect {a : Action W} (h : step request s a = some s') :
    ∃ client, StepEffect request s client s' := by
  cases a with
  | check client =>
      refine ⟨client, ?_⟩
      simp only [step] at h
      split at h
      · next hphase =>
          split at h
          · next hname =>
              cases h
              exact .unreadable hphase hname
          · next hname =>
              rw [Bool.not_eq_true] at hname
              split at h
              · next hsome =>
                  cases h
                  obtain ⟨row, hrow⟩ := List.exists_mem_of_ne_nil _ hsome
                  obtain ⟨version, hversion, rfl⟩ := List.mem_map.mp hrow
                  simp only [List.mem_filter, Bool.and_eq_true, decide_eq_true_eq] at hversion
                  refine .taken hphase hname (List.mem_map_of_mem ?_) hversion.2.1
                  simp [hversion]
              · cases h
                exact .free hphase hname
      · cases h
  | insert client id =>
      refine ⟨client, ?_⟩
      simp only [step] at h
      split at h
      · next hphase =>
          split at h
          · cases h
          · next hid =>
              split at h
              · cases h
              · next hrefused =>
                  cases h
                  refine .refused hphase (fun version hmem hsame => hid ?_) hrefused
                  exact List.mem_map.mpr ⟨version, hmem, hsame⟩
              · next hinserted =>
                  cases h
                  exact .inserted hphase hinserted
      · cases h
  | commit client =>
      refine ⟨client, ?_⟩
      simp only [step] at h
      split at h <;> cases h
      next hphase => exact .commit hphase
  | rollback client =>
      refine ⟨client, ?_⟩
      simp only [step] at h
      split at h <;> cases h
      next hphase => exact .rollback hphase

/-! ## The invariant -/

omit [DecidableEq W] in
/-- A committed row has this name. -/
def IsTaken (s : State W) (name : Text) : Prop :=
  ∃ version ∈ s.stations.versions, version.row.name = name ∧
    version.insertedBy ∈ s.stations.committed

omit [DecidableEq W] in
/-- Why the exception was raised. -/
def ErrorOk (s : State W) (name : Text) (error : RegisterError) : Prop :=
  (Text.hasNul name = true ∧ error = .database) ∨
  (Text.hasNul name = false ∧ IsTaken s name ∧
    (error = alreadyExists name ∨ error = .integrity))

omit [DecidableEq W] in
/-- The row is that of the client's request. -/
def IsOwn (request : W → GroundStationCreate) (client : W) (row : GroundStation) : Prop :=
  row = stationOf row.id (request client)

omit [DecidableEq W] in
/-- What the phase of a request says about the table. -/
def PhaseOk (request : W → GroundStationCreate) (s : State W) (client : W) : Phase → Prop
  | .checking => True
  | .inserting => Text.hasNul (request client).name = false
  | .flushed row => Text.hasNul (request client).name = false ∧
      ⟨row, some client, none⟩ ∈ s.stations.versions
  | .raised error => ErrorOk s (request client).name error
  | .answered response =>
      (∃ row, response = created row ∧ Text.hasNul (request client).name = false ∧
        ⟨row, some client, none⟩ ∈ s.stations.versions ∧ some client ∈ s.stations.committed) ∨
      ∃ error, response = error.response ∧ ErrorOk s (request client).name error

omit [DecidableEq W] in
/-- What a row in the table says about its request. -/
def VersionOk (request : W → GroundStationCreate) (start : Stations) (s : State W)
    (version : Version GroundStation (Option W)) : Prop :=
  version.deletedBy = none ∧
  match version.insertedBy with
  | none => version.row ∈ start.rows
  | some client => IsOwn request client version.row ∧
      ((s.phase client = .flushed version.row ∧ some client ∉ s.stations.committed) ∨
        s.phase client = .answered (created version.row))

omit [DecidableEq W] in
/-- The table and the requests. -/
structure Consistent (request : W → GroundStationCreate) (start : Stations) (s : State W) :
    Prop where
  apart : s.stations.KeepsApart conflicts
  versions : ∀ version ∈ s.stations.versions, VersionOk request start s version
  initial : ∀ row ∈ start.rows, ⟨row, none, none⟩ ∈ s.stations.versions
  begun : none ∈ s.stations.committed
  done : ∀ client, some client ∈ s.stations.committed → IsCreated s client
  phases : ∀ client, PhaseOk request s client (s.phase client)

omit [DecidableEq W] in
/-- What holds of a request goes on to hold while rows are added and committed. -/
theorem PhaseOk.mono {client : W} {phase : Phase} (h : PhaseOk request s client phase)
    (hversions : ∀ version ∈ s.stations.versions, version ∈ s'.stations.versions)
    (hcommitted : ∀ x ∈ s.stations.committed, x ∈ s'.stations.committed) :
    PhaseOk request s' client phase := by
  have herror : ∀ {name : Text} {error : RegisterError}, ErrorOk s name error →
      ErrorOk s' name error := by
    rintro name error (hnul | ⟨hname, ⟨version, hmem, hsame, hinserted⟩, herror⟩)
    · exact Or.inl hnul
    · exact Or.inr ⟨hname, ⟨version, hversions version hmem, hsame, hcommitted _ hinserted⟩, herror⟩
  cases phase with
  | checking => trivial
  | inserting => exact h
  | flushed row => exact ⟨h.1, hversions _ h.2⟩
  | raised error => exact herror h
  | answered response =>
      rcases h with ⟨row, hresponse, hname, hmem, hinserted⟩ | ⟨error, hresponse, hwhy⟩
      · exact Or.inl ⟨row, hresponse, hname, hversions _ hmem, hcommitted _ hinserted⟩
      · exact Or.inr ⟨error, hresponse, herror hwhy⟩

theorem phases_enter {client : W} {phase : Phase}
    (h : ∀ other, PhaseOk request s other (s'.phase other))
    (hphase : PhaseOk request s client phase) :
    ∀ other, PhaseOk request s other ((s'.enter client phase).phase other) := by
  intro other
  by_cases hsame : other = client
  · rw [hsame, State.enter_phase_self]
    exact hphase
  · rw [State.enter_phase_of_ne _ _ _ hsame]
    exact h other

omit [DecidableEq W] in
theorem created_ne_response (station : GroundStation) (error : RegisterError) :
    created station ≠ error.response := by
  cases error <;> simp [created, RegisterError.response]

omit [DecidableEq W] in
/-- A request that has neither flushed nor been answered 201 has no row. -/
theorem Consistent.leavesNoTrace (h : Consistent request start s) {client : W}
    (hnone : ∀ row, s.phase client ≠ .flushed row ∧ s.phase client ≠ .answered (created row)) :
    LeavesNoTrace s client := by
  intro version hmem hinserted
  have hok := (h.versions version hmem).2
  rw [hinserted] at hok
  rcases hok.2 with ⟨hphase, -⟩ | hphase
  · exact (hnone version.row).1 hphase
  · exact (hnone version.row).2 hphase

omit [DecidableEq W] in
/-- The rows of others are not concerned by what a request does. -/
theorem VersionOk.of_ne {version : Version GroundStation (Option W)}
    (h : VersionOk request start s version) {client : W} (hother : version.insertedBy ≠ some client)
    (hphase : ∀ other, other ≠ client → s'.phase other = s.phase other)
    (hcommitted : ∀ other, other ≠ client → some other ∈ s'.stations.committed →
      some other ∈ s.stations.committed) : VersionOk request start s' version := by
  refine ⟨h.1, ?_⟩
  have hok := h.2
  cases hinserted : version.insertedBy with
  | none =>
      rw [hinserted] at hok
      exact hok
  | some other =>
      have hne : other ≠ client := fun hsame => hother (by rw [hinserted, hsame])
      rw [hinserted] at hok
      dsimp only at hok ⊢
      rw [hphase other hne]
      exact ⟨hok.1, hok.2.imp_left fun hflushed =>
        ⟨hflushed.1, fun hdone => hflushed.2 (hcommitted other hne hdone)⟩⟩

/-- What is done stays done while another request goes on. -/
theorem IsCreated.enter {client other : W} {phase : Phase} (h : IsCreated s other)
    (hnot : ∀ row, s.phase client ≠ .answered (created row)) (hphase : s'.phase = s.phase) :
    IsCreated (s'.enter client phase) other := by
  obtain ⟨row, hdone⟩ := h
  have hne : other ≠ client := fun hsame => hnot row (hsame ▸ hdone)
  rw [IsCreated, State.enter_phase_of_ne _ _ _ hne, hphase]
  exact ⟨row, hdone⟩

/-- A request without rows goes on to another phase. -/
theorem Consistent.enter (h : Consistent request start s) {client : W} {phase : Phase}
    (hnone : ∀ row, s.phase client ≠ .flushed row ∧ s.phase client ≠ .answered (created row))
    (hphase : PhaseOk request s client phase) :
    Consistent request start (s.enter client phase) := by
  have htrace := h.leavesNoTrace hnone
  refine ⟨h.apart, fun version hmem => ?_, h.initial, h.begun,
    fun other hdone => (h.done other hdone).enter (fun row => (hnone row).2) rfl, ?_⟩
  · exact (h.versions version hmem).of_ne (htrace version hmem)
      (fun other hne => State.enter_phase_of_ne _ _ _ hne) fun _ _ => id
  · exact fun other => (phases_enter h.phases hphase other).mono (fun _ => id) fun _ => id

/-- A request inserts its row. -/
theorem Consistent.inserted (h : Consistent request start s) {client : W} {id : Uuid}
    {stations : Store GroundStation (Option W)} (hphase : s.phase client = .inserting)
    (hinserted : s.stations.insert (some client) conflicts (stationOf id (request client)) =
      .inserted stations) :
    Consistent request start (({ s with stations := stations } : State W).enter client
      (.flushed (stationOf id (request client)))) := by
  have hname := h.phases client
  rw [hphase] at hname
  have htrace : LeavesNoTrace s client := h.leavesNoTrace (by simp [hphase])
  have hapart := h.apart.insert hinserted
  rw [Store.insert_eq_inserted hinserted] at hapart ⊢
  refine ⟨hapart, fun version hmem => ?_,
    fun row hrow => List.mem_append_left _ (h.initial row hrow), h.begun,
    fun other hdone => (h.done other hdone).enter (by simp [hphase]) rfl, ?_⟩
  · rcases List.mem_append.mp hmem with hold | hnew
    · exact (h.versions version hold).of_ne (htrace version hold)
        (fun other hne => State.enter_phase_of_ne _ _ _ hne) fun _ _ hdone => hdone
    · rw [List.mem_singleton.mp hnew]
      refine ⟨rfl, rfl, Or.inl ⟨State.enter_phase_self _ _ _, fun hdone => ?_⟩⟩
      obtain ⟨row, hrow⟩ := h.done client hdone
      rw [hphase] at hrow
      cases hrow
  · refine phases_enter (fun other => ?_) ⟨hname, List.mem_append_right _ List.mem_cons_self⟩
    exact (h.phases other).mono (fun _ => List.mem_append_left _) fun _ hmem => hmem

/-- A request commits its row. -/
theorem Consistent.commit (h : Consistent request start s) {client : W} {station : GroundStation}
    (hphase : s.phase client = .flushed station) :
    Consistent request start (({ s with stations := s.stations.commit (some client) } :
      State W).enter client (.answered (created station))) := by
  have hflushed := h.phases client
  rw [hphase] at hflushed
  refine ⟨h.apart.commit, fun version hmem => ?_, h.initial, List.mem_cons_of_mem _ h.begun,
    fun other hdone => ?_, ?_⟩
  · by_cases hown : version.insertedBy = some client
    · obtain ⟨hdeleted, hok⟩ := h.versions version hmem
      refine ⟨hdeleted, ?_⟩
      rw [hown] at hok ⊢
      refine ⟨hok.1, Or.inr ?_⟩
      rw [State.enter_phase_self]
      rcases hok.2 with ⟨hrow, -⟩ | hrow
      · rw [hphase] at hrow
        cases hrow
        rfl
      · rw [hphase] at hrow
        cases hrow
    · refine (h.versions version hmem).of_ne hown
        (fun other hne => State.enter_phase_of_ne _ _ _ hne) fun other hne hdone => ?_
      exact (List.mem_cons.mp hdone).resolve_left fun hsame => hne (Option.some.inj hsame)
  · rcases List.mem_cons.mp hdone with hsame | hdone
    · cases hsame
      exact ⟨station, State.enter_phase_self _ _ _⟩
    · exact (h.done other hdone).enter (by simp [hphase]) rfl
  · refine phases_enter (fun other => ?_)
      (Or.inl ⟨station, rfl, hflushed.1, hflushed.2, List.mem_cons_self⟩)
    exact (h.phases other).mono (fun _ => id) fun _ => List.mem_cons_of_mem _

/-- A request that has raised an exception has nothing to roll back. -/
theorem Consistent.rollback (h : Consistent request start s) {client : W} {error : RegisterError}
    (hphase : s.phase client = .raised error) :
    Consistent request start (({ s with stations := s.stations.rollback (some client) } :
      State W).enter client (.answered error.response)) := by
  have htrace : LeavesNoTrace s client := h.leavesNoTrace (by simp [hphase])
  have hwhy := h.phases client
  rw [hphase] at hwhy
  rw [Store.rollback_eq_self fun version hmem =>
    ⟨htrace version hmem, (h.versions version hmem).1⟩]
  exact h.enter (by simp [hphase]) (Or.inr ⟨error, rfl, hwhy⟩)

/-- A row of a committed transaction is there for everyone. -/
theorem Consistent.mem_rows (h : Consistent request start s) {row : GroundStation} :
    row ∈ s.rows ↔ ∃ version ∈ s.stations.versions, version.row = row ∧
      version.insertedBy ∈ s.stations.committed := by
  simp only [State.rows, Store.current, List.mem_map, List.mem_filter, Bool.true_and,
    decide_eq_true_eq]
  constructor
  · rintro ⟨version, ⟨hmem, hcurrent⟩, hrow⟩
    exact ⟨version, hmem, hrow, hcurrent.1⟩
  · rintro ⟨version, hmem, hrow, hinserted⟩
    refine ⟨version, ⟨hmem, hinserted, fun y hy => ?_⟩, hrow⟩
    rw [(h.versions version hmem).1] at hy
    cases hy

/-- The constraint refuses a row whose name is taken. -/
theorem Consistent.isTaken_of_refused (h : Consistent request start s) {client : W} {id : Uuid}
    (hphase : s.phase client = .inserting)
    (hid : ∀ version ∈ s.stations.versions, version.row.id ≠ id)
    (hrefused : s.stations.insert (some client) conflicts (stationOf id (request client)) =
      .refused) : IsTaken s (request client).name := by
  unfold Store.insert at hrefused
  split at hrefused
  · next hrival =>
      obtain ⟨version, hmem, hconflict, hvisible, -⟩ := hrival
      simp only [conflicts, Bool.or_eq_true, decide_eq_true_eq] at hconflict
      have htrace : LeavesNoTrace s client := h.leavesNoTrace (by simp [hphase])
      refine ⟨version, hmem, hconflict.resolve_left (hid version hmem), ?_⟩
      exact hvisible.1.resolve_left (htrace version hmem)
  · split at hrefused <;> cases hrefused

/-- The step lemma. -/
theorem consistent_step {client : W} (h : Consistent request start s)
    (heffect : StepEffect request s client s') : Consistent request start s' := by
  cases heffect with
  | unreadable hphase hname => exact h.enter (by simp [hphase]) (Or.inl ⟨hname, rfl⟩)
  | taken hphase hname hmem hsame =>
      obtain ⟨version, hversion, hrow, hinserted⟩ := h.mem_rows.mp hmem
      exact h.enter (by simp [hphase])
        (Or.inr ⟨hname, ⟨version, hversion, by rw [hrow, hsame], hinserted⟩, Or.inl rfl⟩)
  | free hphase hname => exact h.enter (by simp [hphase]) hname
  | refused hphase hid hrefused =>
      have hname := h.phases client
      rw [hphase] at hname
      exact h.enter (by simp [hphase])
        (Or.inr ⟨hname, h.isTaken_of_refused hphase hid hrefused, Or.inr rfl⟩)
  | inserted hphase hinserted => exact h.inserted hphase hinserted
  | commit hphase => exact h.commit hphase
  | rollback hphase => exact h.rollback hphase

/-- The run lemma. -/
theorem consistent_of_run {h : History (State W) (Action W)}
    (hrun : (registration request start).Run h s) : Consistent request start s := by
  apply hrun.invariant_of_step (I := fun _ s => Consistent request start s)
  · rintro s ⟨hstations, hphase⟩
    refine ⟨?_, ?_, ?_, ?_, ?_, ?_⟩
    · rw [Store.KeepsApart, hstations]
      refine List.pairwise_map.mpr (List.Pairwise.imp₂ ?_ (List.pairwise_map.mp start.nodup)
        (List.pairwise_map.mp start.names))
      intro first second hid hname hconflict
      simp [conflicts, hid, hname] at hconflict
    · intro version hmem
      rw [hstations] at hmem
      obtain ⟨row, hrow, rfl⟩ := List.mem_map.mp hmem
      exact ⟨rfl, hrow⟩
    · intro row hrow
      rw [hstations]
      exact List.mem_map_of_mem hrow
    · rw [hstations]
      exact List.mem_singleton_self none
    · intro client hdone
      rw [hstations] at hdone
      cases List.mem_singleton.mp hdone
    · intro client
      rw [hphase]
      trivial
  · intro h s a s' _ hinv hstep
    obtain ⟨client, heffect⟩ := step_effect hstep
    exact consistent_step hinv heffect

/-! ## Linearizability -/

omit [DecidableEq W] in
theorem toRead_injective : Function.Injective toRead := by
  rintro ⟨id, name, ⟨lon, lat⟩, altitude⟩ ⟨id', name', ⟨lon', lat'⟩, altitude'⟩ hsame
  simp only [toRead, GroundStationRead.mk.injEq] at hsame
  obtain ⟨rfl, rfl, rfl, rfl, rfl⟩ := hsame
  rfl

omit [DecidableEq W] in
/-- No two rows have one name, committed or not. -/
theorem Consistent.eq_of_name (h : Consistent request start s)
    {first second : Version GroundStation (Option W)} (hfirst : first ∈ s.stations.versions)
    (hsecond : second ∈ s.stations.versions) (hname : first.row.name = second.row.name) :
    first = second := by
  have hapart : s.stations.versions.Pairwise fun first second =>
      first.row.name ≠ second.row.name := by
    refine h.apart.imp_of_mem fun {first second} hmem _ hpair hsame => ?_
    obtain ⟨y, hy, -⟩ := hpair (by simp [conflicts, hsame])
    rw [(h.versions first hmem).1] at hy
    cases hy
  have hsymm : Std.Symm fun first second : Version GroundStation (Option W) =>
      first.row.name ≠ second.row.name := ⟨fun _ _ => Ne.symm⟩
  by_contra hne
  exact hapart.forall hfirst hsecond hne hname

omit [DecidableEq W] in
/-- The row of a request that is answered 201. -/
theorem Consistent.version_of_created (h : Consistent request start s) {client : W}
    {row : GroundStation} (hphase : s.phase client = .answered (created row)) :
    ⟨row, some client, none⟩ ∈ s.stations.versions ∧ some client ∈ s.stations.committed ∧
      IsOwn request client row := by
  have hok := h.phases client
  rw [hphase] at hok
  rcases hok with ⟨other, hresponse, -, hmem, hcommitted⟩ | ⟨error, hresponse, -⟩
  · have hsame : row = other := toRead_injective (by simpa [created] using hresponse)
    subst hsame
    exact ⟨hmem, hcommitted, (h.versions _ hmem).2.1⟩
  · exact absurd hresponse (created_ne_response row error)

omit [DecidableEq W] in
/-- A committed row is one from the start, or that of a request that is answered 201. -/
theorem Consistent.origin (h : Consistent request start s)
    {version : Version GroundStation (Option W)} (hmem : version ∈ s.stations.versions)
    (hinserted : version.insertedBy ∈ s.stations.committed) :
    version.row ∈ start.rows ∨ ∃ client, s.phase client = .answered (created version.row) ∧
      IsOwn request client version.row := by
  have hok := (h.versions version hmem).2
  cases howner : version.insertedBy with
  | none =>
      rw [howner] at hok
      exact Or.inl hok
  | some client =>
      rw [howner] at hok hinserted
      refine Or.inr ⟨client, hok.2.resolve_left fun hflushed => hflushed.2 hinserted, hok.1⟩

omit [DecidableEq W] in
theorem IsOwn.name_eq {client : W} {row : GroundStation} (h : IsOwn request client row) :
    row.name = (request client).name := by
  rw [h]
  rfl

omit [DecidableEq W] in
/-- One request per new name is answered 201. -/
theorem Consistent.existsUnique_created (h : Consistent request start s) {name : Text}
    (hnul : Text.hasNul name = false) (hrequested : ∃ client, (request client).name = name)
    (habsent : name ∉ start.rows.map GroundStation.name)
    (hfinished : ∀ client, (request client).name = name → IsFinished s client) :
    ∃! client, (request client).name = name ∧ IsCreated s client := by
  obtain ⟨client, rfl⟩ := hrequested
  have hexists : ∃ winner, (request winner).name = (request client).name ∧ IsCreated s winner := by
    obtain ⟨response, hphase⟩ := hfinished client rfl
    have hok := h.phases client
    rw [hphase] at hok
    rcases hok with ⟨row, hresponse, -⟩ | ⟨error, -, hwhy⟩
    · exact ⟨client, rfl, row, by rw [hphase, hresponse]⟩
    · rcases hwhy with ⟨hname, -⟩ | ⟨-, ⟨version, hmem, hsame, hinserted⟩, -⟩
      · rw [hnul] at hname
        cases hname
      · rcases h.origin hmem hinserted with hstart | ⟨winner, hwinner, hown⟩
        · exact absurd (List.mem_map.mpr ⟨version.row, hstart, hsame⟩) habsent
        · exact ⟨winner, by rw [← hown.name_eq, hsame], version.row, hwinner⟩
  obtain ⟨winner, hname, row, hphase⟩ := hexists
  refine ⟨winner, ⟨hname, row, hphase⟩, ?_⟩
  rintro other ⟨hother, row', hphase'⟩
  obtain ⟨hmem, -, hown⟩ := h.version_of_created hphase
  obtain ⟨hmem', -, hown'⟩ := h.version_of_created hphase'
  have hsame := h.eq_of_name hmem' hmem (by rw [hown.name_eq, hown'.name_eq, hname, hother])
  exact Option.some.inj (congrArg Version.insertedBy hsame)

omit [DecidableEq W] in
/-- A request that has finished without creating a station. -/
theorem Consistent.rejected (h : Consistent request start s) {client : W}
    (hfinished : IsFinished s client) (hnot : ¬ IsCreated s client) :
    LeavesNoTrace s client ∧ ∃ error, s.phase client = .answered error.response ∧
      ErrorOk s (request client).name error := by
  obtain ⟨response, hphase⟩ := hfinished
  refine ⟨h.leavesNoTrace fun row => ⟨by simp [hphase], fun hrow => hnot ⟨row, hrow⟩⟩, ?_⟩
  have hok := h.phases client
  rw [hphase] at hok
  rcases hok with ⟨row, hresponse, -⟩ | ⟨error, hresponse, hwhy⟩
  · exact absurd ⟨row, by rw [hphase, hresponse]⟩ hnot
  · exact ⟨error, by rw [hphase, hresponse], hwhy⟩

theorem Consistent.linearizes (h : Consistent request start s) :
    Linearizes (fun name => Text.hasNul name = false) request start s := by
  constructor
  · refine List.pairwise_map.mpr ((h.apart.current fun _ => true).imp ?_)
    intro first second hapart hsame
    simp [conflicts, hsame] at hapart
  · exact fun name hnul hrequested habsent hfinished =>
      h.existsUnique_created hnul hrequested habsent hfinished
  · rintro client hpresent ⟨row, hphase⟩
    obtain ⟨hmem, -, hown⟩ := h.version_of_created hphase
    obtain ⟨other, hother, hname⟩ := List.mem_map.mp hpresent
    have hsame := h.eq_of_name (h.initial other hother) hmem (hname.trans hown.name_eq.symm)
    cases congrArg Version.insertedBy hsame
  · intro client hnul hfinished hnot
    obtain ⟨htrace, error, hphase, hwhy⟩ := h.rejected hfinished hnot
    refine ⟨?_, htrace⟩
    rcases hwhy with ⟨hname, -⟩ | ⟨-, -, rfl | rfl⟩
    · rw [hnul] at hname
      cases hname
    · exact Or.inl hphase
    · exact Or.inr hphase
  · rintro client ⟨row, hphase⟩
    obtain ⟨hmem, hcommitted, hown⟩ := h.version_of_created hphase
    refine ⟨row.id, ?_⟩
    rw [← hown]
    refine ⟨hphase, h.mem_rows.mpr ⟨_, hmem, rfl, hcommitted⟩, fun other hother hname => ?_⟩
    obtain ⟨version, hversion, rfl, -⟩ := h.mem_rows.mp hother
    exact congrArg Version.row (h.eq_of_name hversion hmem (hname.trans hown.name_eq.symm))
  · intro row
    rw [h.mem_rows]
    constructor
    · rintro ⟨version, hmem, rfl, hinserted⟩
      exact h.origin hmem hinserted
    · rintro (hstart | ⟨client, hphase, -⟩)
      · exact ⟨_, h.initial row hstart, rfl, h.begun⟩
      · obtain ⟨hmem, hcommitted, -⟩ := h.version_of_created hphase
        exact ⟨_, hmem, rfl, hcommitted⟩

/-- **Registration is linearizable by name.** Whatever the order of the steps of any number of
requests, of those for one new name exactly one is answered 201; all others are answered 409
and leave nothing behind. Only names with U+0000 are out of this: they are answered 500, and
leave nothing behind either. -/
theorem linearizes_of_run {h : History (State W) (Action W)}
    (hrun : (registration request start).Run h s) :
    Linearizes (fun name => Text.hasNul name = false) request start s ∧
    ∀ client, Text.hasNul (request client).name = true → IsFinished s client →
      s.phase client = .answered RegisterError.database.response ∧ LeavesNoTrace s client := by
  have hconsistent := consistent_of_run hrun
  refine ⟨hconsistent.linearizes, fun client hnul hfinished => ?_⟩
  have hnot : ¬ IsCreated s client := by
    rintro ⟨row, hphase⟩
    have hok := hconsistent.phases client
    rw [hphase] at hok
    rcases hok with ⟨-, -, hname, -⟩ | ⟨error, hresponse, -⟩
    · rw [hnul] at hname
      cases hname
    · exact created_ne_response row error hresponse
  obtain ⟨htrace, error, hphase, hwhy⟩ := hconsistent.rejected hfinished hnot
  rcases hwhy with ⟨-, rfl⟩ | ⟨hname, -⟩
  · exact ⟨hphase, htrace⟩
  · rw [hnul] at hname
    cases hname

/-- A request that waits does so for another one, whose row is not committed yet. -/
theorem Consistent.exists_flushed_of_waits (h : Consistent request start s) {client : W}
    {row : GroundStation} (hwaits : s.stations.insert (some client) conflicts row = .waits) :
    ∃ other station, s.phase other = .flushed station := by
  obtain ⟨version, hmem, hvisible, -⟩ := Store.exists_of_insert_waits hwaits
  obtain ⟨hdeleted, hok⟩ := h.versions version hmem
  have hunseen : ¬ Sees s.stations.committed (some client) version.insertedBy := by
    intro hsees
    exact hvisible ⟨⟨hsees, by simp [hdeleted]⟩, hdeleted⟩
  cases howner : version.insertedBy with
  | none => exact absurd (Or.inr (howner ▸ h.begun)) hunseen
  | some other =>
      rw [howner] at hok hunseen
      rcases hok.2 with ⟨hphase, -⟩ | hphase
      · exact ⟨other, _, hphase⟩
      · exact absurd (Or.inr (h.version_of_created hphase).2.1) hunseen

/-- As long as a request has not finished, some request can go on. -/
theorem exists_step_of_run {h : History (State W) (Action W)}
    (hrun : (registration request start).Run h s) {client : W} (hopen : ¬ IsFinished s client) :
    ∃ a s', step request s a = some s' := by
  have hconsistent := consistent_of_run hrun
  have hcommit : ∀ {other : W} {station : GroundStation}, s.phase other = .flushed station →
      ∃ a s', step request s a = some s' := by
    intro other station hphase
    refine ⟨.commit other, ?_⟩
    simp only [step, hphase]
    exact ⟨_, rfl⟩
  cases hphase : s.phase client with
  | checking =>
      refine ⟨.check client, ?_⟩
      simp only [step, hphase]
      split
      · exact ⟨_, rfl⟩
      · split <;> exact ⟨_, rfl⟩
  | inserting =>
      obtain ⟨id, hid⟩ := Infinite.exists_notMem_finset
        (s.stations.versions.map fun version => version.row.id).toFinset
      rw [List.mem_toFinset] at hid
      cases hinsert : s.stations.insert (some client) conflicts (stationOf id (request client)) with
      | waits =>
          obtain ⟨other, station, hother⟩ := hconsistent.exists_flushed_of_waits hinsert
          exact hcommit hother
      | refused =>
          refine ⟨.insert client id, ?_⟩
          simp only [step, hphase, if_neg hid, hinsert]
          exact ⟨_, rfl⟩
      | inserted stations =>
          refine ⟨.insert client id, ?_⟩
          simp only [step, hphase, if_neg hid, hinsert]
          exact ⟨_, rfl⟩
  | flushed station => exact hcommit hphase
  | raised error =>
      refine ⟨.rollback client, ?_⟩
      simp only [step, hphase]
      exact ⟨_, rfl⟩
  | answered response => exact absurd ⟨response, hphase⟩ hopen

/-! ## Madrid -/

/-- A request for a station in Madrid. -/
def madridRequest (altitudeM : ℚ) (haltitude : -500 ≤ altitudeM ∧ altitudeM ≤ 100000) :
    GroundStationCreate where
  name := "Madrid".toList
  latitude := 404168 / 10000
  longitude := -37038 / 10000
  altitudeM := altitudeM
  minLength := by decide
  maxLength := by decide
  latitudeBounds := by norm_num
  longitudeBounds := by norm_num
  altitudeBounds := haltitude

/-- There is no station yet. -/
def noStations : Stations where
  rows := []
  nodup := List.nodup_nil
  names := List.nodup_nil

/-- Nobody has done anything. -/
def idleClients : State (Fin 2) where
  stations := ⟨[], [none]⟩
  phase _ := .checking

/-- Two requests for the name. -/
def madridRequests (client : Fin 2) : GroundStationCreate :=
  if client = 0 then madridRequest 667 (by norm_num) else madridRequest 700 (by norm_num)

/-- Both find the name free, and the second one to insert is refused after the commit of the
first. -/
theorem madrid_race :
    ∃ h s, (registration madridRequests noStations).Run h s ∧
      IsCreated s 0 ∧ s.phase 1 = .answered RegisterError.integrity.response ∧
      Linearizes (fun name => Text.hasNul name = false) madridRequests noStations s := by
  obtain ⟨h, s, hrun, hP⟩ := System.exists_run_of_play
    (M := registration madridRequests noStations) (s := idleClients) ⟨rfl, fun _ => rfl⟩
    [.check 0, .check 1, .insert 0 1, .commit 0, .insert 1 2, .rollback 1]
    (fun p => decide (p.2.phase 0 = .answered (created (stationOf 1 (madridRequests 0))) ∧
      p.2.phase 1 = .answered RegisterError.integrity.response)) (by decide +kernel)
  obtain ⟨hfirst, hsecond⟩ := of_decide_eq_true hP
  exact ⟨h, s, hrun, ⟨_, hfirst⟩, hsecond, (linearizes_of_run hrun).1⟩

/-- A request whose name is U+0000. -/
def nulRequest (_ : Unit) : GroundStationCreate :=
  { madridRequest 667 (by norm_num) with
    name := [Text.nul]
    minLength := by decide
    maxLength := by decide }

/-- It passes the validation, but it is answered 500. -/
theorem nul_not_linearizes :
    ∃ h s, (registration nulRequest noStations).Run h s ∧ (∀ client, IsFinished s client) ∧
      s.phase () = .answered ⟨500, .text "Internal Server Error".toList⟩ ∧
      ¬ Linearizes (fun _ => True) nulRequest noStations s := by
  obtain ⟨h, s, hrun, hP⟩ := System.exists_run_of_play
    (M := registration nulRequest noStations) (s := ⟨⟨[], [none]⟩, fun _ => .checking⟩)
    ⟨rfl, fun _ => rfl⟩ [.check (), .rollback ()]
    (fun p => decide (p.2.phase () = .answered RegisterError.database.response))
    (by decide +kernel)
  have hphase := of_decide_eq_true hP
  have hfinished : ∀ client, IsFinished s client := fun _ => ⟨_, hphase⟩
  refine ⟨h, s, hrun, hfinished, hphase, fun hlinear => ?_⟩
  obtain ⟨client, ⟨-, station, hcreated⟩, -⟩ := hlinear.once [Text.nul] trivial ⟨(), rfl⟩
    List.not_mem_nil fun client _ => hfinished client
  rw [hphase, Phase.answered.injEq] at hcreated
  exact created_ne_response station _ hcreated.symm

end Apsis.Tracking.Registration
