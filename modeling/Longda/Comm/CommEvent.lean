import Longda.Net.IoVec

/-!
# Messages and communication events

A received message is a request, a response, or of a type that is neither. A `CommEvent` carries a
request and its response through the stages: on the server it is made for a request received, on
the client it waits for the response.
-/

namespace Longda

/-- `Message`, as far as the classes are told apart on reception. -/
inductive Message where
  | request (mId : UInt64)
  | response (mId : UInt64) (mStatus : Int32)
  | other (mId : UInt64)
  deriving DecidableEq, Repr

structure CommEvent where
  /-- `status_t`; an `int` read from a message is cast to it. -/
  status : Int32 := 0
  serverGen : Bool := false
  sock : Int32 := -1
  requestId : UInt32 := 0
  targetHost : Path := []
  request : MsgDesc Message := {}
  response : MsgDesc Message := {}

namespace CommEvent

def SUCCESS : Int32 := 0
def PENDING : Int32 := 2
def CONN_FAILURE : Int32 := 3
def MALFORMED_MESSAGE : Int32 := 4
def VERSION_MISMATCH : Int32 := 5
def SEND_FAILURE : Int32 := 6
def STAGE_CLEANUP : Int32 := 8
def RESOURCE_FAILURE : Int32 := 9

end CommEvent

end Longda
