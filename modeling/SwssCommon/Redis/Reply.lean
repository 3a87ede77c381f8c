import SwssCommon.Lib.Bytes

/-! # Replies and their checks

`RedisReply` holds what hiredis read and throws a system error if it is not what the caller expects.
The text of an input/output error follows the message.
-/

namespace SwssCommon

open Bytes

inductive RedisReply where
  | string (str : Bytes)
  | array (element : List RedisReply)
  | integer (integer : Int)
  | nil
  | status (str : Bytes)
  | error (str : Bytes)

def REDIS_REPLY_STRING : Int := 1
def REDIS_REPLY_ARRAY : Int := 2
def REDIS_REPLY_INTEGER : Int := 3
def REDIS_REPLY_NIL : Int := 4
def REDIS_REPLY_STATUS : Int := 5
def REDIS_REPLY_ERROR : Int := 6

/-- A `system_error` with code `io_error`. -/
structure SystemError where
  message : Bytes
  deriving DecidableEq

def SystemError.what (e : SystemError) : Bytes :=
  e.message ++ ascii ": Input/output error"

namespace RedisReply

def type : RedisReply → Int
  | string _ => REDIS_REPLY_STRING
  | array _ => REDIS_REPLY_ARRAY
  | integer _ => REDIS_REPLY_INTEGER
  | nil => REDIS_REPLY_NIL
  | status _ => REDIS_REPLY_STATUS
  | error _ => REDIS_REPLY_ERROR

def str : RedisReply → Bytes
  | string s | status s | error s => s
  | _ => []

def checkStatus (r : RedisReply) (status : Bytes) : Except SystemError Unit :=
  if cStr r.str ≠ status then .error ⟨ascii "Invalid return code"⟩ else .ok ()

def checkStatusOK (r : RedisReply) : Except SystemError Unit :=
  r.checkStatus (ascii "OK")

def checkStatusQueued (r : RedisReply) : Except SystemError Unit :=
  r.checkStatus (ascii "QUEUED")

def checkReply : RedisReply → Except SystemError Unit
  | error str => .error ⟨cStr str⟩
  | _ => .ok ()

def checkReplyType (r : RedisReply) (expectedType : Int) : Except SystemError Unit :=
  if r.type ≠ expectedType then
    let err := if r.type = REDIS_REPLY_STRING ∨ r.type = REDIS_REPLY_ERROR then cStr r.str
      else ascii "NON-STRING-REPLY"
    .error ⟨ascii "Expected to get redis type " ++ toString expectedType ++ ascii " got type " ++
      toString r.type ++ ascii ", err: " ++ err⟩
  else .ok ()
where
  /-- `std::to_string` of an `int`. -/
  toString (n : Int) : Bytes := if n < 0 then ascii "-" ++ decimal n.natAbs else decimal n.natAbs

/-- `guard`: an error says which command it was about. -/
def guard (check : Except SystemError Unit) (command : Bytes) : Except SystemError Unit :=
  match check with
  | .ok () => .ok ()
  | .error ex =>
    .error ⟨ascii "RedisReply catches system_error: command: " ++ command ++
      ascii ", reason: " ++ ex.what⟩

theorem guard_eq_ok {check command} :
    guard check command = .ok () ↔ check = .ok () := by
  cases check with
  | ok _ | error ex => simp [guard]

def Meets (r : RedisReply) (expectedType : Int) : Prop :=
  r.checkReply = .ok () ∧ r.checkReplyType expectedType = .ok ()

end RedisReply

end SwssCommon
