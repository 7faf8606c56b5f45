import MainlineDht.Go.Bencode

/-!
# KRPC messages in Go

The three kinds of messages of `krpc_message.go`, how they are encoded as
dictionaries and how a dictionary is read back.
-/

namespace MainlineDht.Go

open Ordered Bencode

/-- The bindings of a Go `bencodeDict`. -/
abbrev Dict : Type := List (Bytes × Value)

/-- A query: a method and its arguments. -/
structure KrpcQuery where
  transactionId : Bytes
  methodName : Bytes
  arguments : Dict

/-- A response: the return values of a method. -/
structure KrpcResponse where
  transactionId : Bytes
  returnValues : Dict

/-- An error: a code and a text. -/
structure KrpcError where
  transactionId : Bytes
  code : Int
  message : Bytes

/-- The messages of the protocol. -/
inductive KrpcMessage
  | query (qry : KrpcQuery)
  | response (res : KrpcResponse)
  | error (err : KrpcError)

/-- The key `t` of the transaction id. -/
def keyT : Bytes := [116]

/-- The key `y` of the message type. -/
def keyY : Bytes := [121]

/-- The key `q` of the method name. -/
def keyQ : Bytes := [113]

/-- The key `a` of the arguments. -/
def keyA : Bytes := [97]

/-- The key `r` of the return values. -/
def keyR : Bytes := [114]

/-- The key `e` of the error. -/
def keyE : Bytes := [101]

/-- The type of queries is the key of their method name. -/
def krpcTypeQuery : Bytes := keyQ

/-- The type of responses is the key of their return values. -/
def krpcTypeReply : Bytes := keyR

/-- The type of errors is the key of their list. -/
def krpcTypeError : Bytes := keyE

/-- The code of an error that has no other. -/
def krpcErrorGeneric : Int := 201

/-- The code of arguments that a method does not take. -/
def krpcErrorProtocol : Int := 203

/-- The code of a method without a handler. -/
def krpcErrorUnknownMethod : Int := 204

namespace KrpcMessage

/-- The three `getTransactionId` methods. -/
def getTransactionId : KrpcMessage → Bytes
  | query qry => qry.transactionId
  | response res => res.transactionId
  | error err => err.transactionId

/-- The three `setTransactionId` methods. -/
def setTransactionId (id : Bytes) : KrpcMessage → KrpcMessage
  | query qry => query { qry with transactionId := id }
  | response res => response { res with transactionId := id }
  | error err => error { err with transactionId := id }

/-- The dictionary of a message. -/
def toDict : KrpcMessage → Dict
  | query qry => Entries.ofList
      [(keyT, .bytes qry.transactionId), (keyY, .bytes krpcTypeQuery),
        (keyQ, .bytes qry.methodName), (keyA, .dict qry.arguments)]
  | response res => Entries.ofList
      [(keyT, .bytes res.transactionId), (keyY, .bytes krpcTypeReply),
        (keyR, .dict res.returnValues)]
  | error err => Entries.ofList
      [(keyT, .bytes err.transactionId), (keyY, .bytes krpcTypeError),
        (keyE, .list [.int err.code, .bytes err.message])]

/-- The three `encode` methods. -/
def encode (msg : KrpcMessage) : Bytes :=
  Go.encode (.dict msg.toDict)

/-- The message is a query. -/
def isQuery : KrpcMessage → Bool
  | query _ => true
  | response _ => false
  | error _ => false

end KrpcMessage

/-- The errors of `decodeKrpcMessage`. -/
inductive KrpcDecodeError
  | missingTypeOrId
  | invalidQuery
  | invalidResponse
  | invalidErrorList
  | invalidErrorParts
  | unknownType (y : Bytes)

/-- The texts of the errors.  The unknown type stands in its text as the verb `%q`
quotes it. -/
def KrpcDecodeError.message (quote : Bytes → String) : KrpcDecodeError → String
  | missingTypeOrId =>
      "decoding KRPC message: transaction id or message type are missing or invalid"
  | invalidQuery => "decoding KRPC query: method name or arguments are missing or invalid"
  | invalidResponse => "decoding KRPC response: \"r\" is not a dictionary"
  | invalidErrorList => "decoding KRPC error: \"e\" is not a two-element list"
  | invalidErrorParts => "decoding KRPC error: code or message are missing or invalid"
  | unknownType y => "decoding KRPC message: unknown type " ++ quote y

/-- `data[key].(bencodeString)` -/
def stringAt (data : Dict) (key : Bytes) : Option Bytes :=
  match Entries.lookup key data with
  | some (.bytes s) => some s
  | _ => none

/-- `data[key].(bencodeDict)` -/
def dictAt (data : Dict) (key : Bytes) : Option Dict :=
  match Entries.lookup key data with
  | some (.dict d) => some d
  | _ => none

/-- `data[key].(bencodeList)` -/
def listAt (data : Dict) (key : Bytes) : Option (List Value) :=
  match Entries.lookup key data with
  | some (.list l) => some l
  | _ => none

/-- The message of a dictionary.  The transaction id and the type are looked at
first, then what the type asks for; other keys do not matter. -/
def decodeKrpcMessage (data : Dict) : Except KrpcDecodeError KrpcMessage :=
  match stringAt data keyT, stringAt data keyY with
  | some t, some y =>
      if y = krpcTypeQuery then
        match stringAt data keyQ, dictAt data keyA with
        | some q, some a => .ok (.query { transactionId := t, methodName := q, arguments := a })
        | _, _ => .error .invalidQuery
      else if y = krpcTypeReply then
        match dictAt data keyR with
        | some r => .ok (.response { transactionId := t, returnValues := r })
        | none => .error .invalidResponse
      else if y = krpcTypeError then
        match listAt data keyE with
        | some [code, message] =>
            match code, message with
            | .int code, .bytes message =>
                .ok (.error { transactionId := t, code := code, message := message })
            | _, _ => .error .invalidErrorParts
        | _ => .error .invalidErrorList
      else
        .error (.unknownType y)
  | _, _ => .error .missingTypeOrId

end MainlineDht.Go
