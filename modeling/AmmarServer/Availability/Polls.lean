import AmmarServer.Services.Creations

/-! The polls of `Services/Availability/state.c`. -/

namespace AmmarServer.Availability
open Services

def MAX_POLLS : ℕ := 1000
def MAX_OPTIONS : ℕ := 60
def MAX_STRING_SIZE : ℕ := 256

structure PollOption where
  year : UInt32
  month : UInt32
  day : UInt32
  hasStartTime : UInt8
  startHour : UInt32
  startMinute : UInt32
  hasEndTime : UInt8
  endHour : UInt32
  endMinute : UInt32
deriving DecidableEq, Repr

structure PollResponse where
  name : List UInt8
  email : Option (List UInt8)
  votes : List UInt8
deriving DecidableEq, Repr

/-- `finalizedOptionIndex` is the word of an `int`. -/
structure Poll where
  id : List UInt8
  title : List UInt8
  ownerToken : List UInt8
  closed : UInt8
  finalizedOptionIndex : UInt32
  options : List PollOption
  responses : List PollResponse
deriving DecidableEq, Repr

def polls : Service where
  letter := 97
  limit := MAX_POLLS
  plain := by decide
  bounded := le_rfl

/-- The record of a new poll, whose token is drawn. -/
def newPoll (title : List UInt8) (options : List PollOption) (ownerToken id : List UInt8) : Poll where
  id
  title := title.take (MAX_STRING_SIZE - 1)
  ownerToken
  closed := 0
  finalizedOptionIndex := 0xffffffff
  options := options.take MAX_OPTIONS
  responses := []

/-- `directory` is whether `mkdir` can make the directory. No later failure is looked at. -/
def pollCall (directory : Bool) (title : List UInt8) (options : List PollOption)
    (ownerToken : List UInt8) : Call Poll where
  directory
  inside := true
  build := newPoll title options ownerToken

def createPoll (directory : Bool) (title : List UInt8) (options : List PollOption)
    (ownerToken : List UInt8) (s : Site Poll) : Except Hashmap.Fault (Option (List UInt8) × Site Poll) :=
  if options = [] then .ok (none, s)
  else createRecord polls (pollCall directory title options ownerToken) s

end AmmarServer.Availability
