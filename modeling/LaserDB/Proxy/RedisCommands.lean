import LaserDB.Library.DecimalText

/-!
# Commands of the redis proxy

`RedisProtocol::end` looks a request up in the command table, checks its arguments and calls one of
the registered callbacks.
-/

namespace LaserDB.RedisProtocol
open DecimalText

inductive Callback
  | configGet | configSet | get | set | setex | append | existsKeys | mget | mset
  | zadd | zrangebyscore | zremrangebyscore
  | hget | hset | hmget | hmset | hgetall | hkeys | hlen | hexists | hdel
  | del | expire | expireat | ttl | decr | incr | decrby | incrby
  deriving DecidableEq, Repr

def Callback.writes : Callback → Bool
  | .configSet | .set | .setex | .append | .mset | .zadd | .zremrangebyscore | .hset | .hmset
  | .hdel | .del | .expire | .expireat | .decr | .incr | .decrby | .incrby => true
  | _ => false

inductive Reply
  | ok
  | null
  | ping
  | integer (value : Int)
  | bulk (data : Bytes)
  | arrays (values : List Bytes)
  | scoreMembers (size : Nat) (entries : List Bytes)
  | emptyListOrSet
  | zrangebyscoreEmptySet
  | unknownCmd
  | unknownOption
  | formatError
  | msetFailed
  | wrongArgumentsNumber
  | hsetFailed
  | hmsetFailed
  | setexInvalidExpireTime
  | psetexInvalidExpireTime
  | valueTypeError
  | zaddFailed
  | zaddValueTypeError
  | zrangebyscoreCommandError
  | zrangebyscoreMinOrMaxError
  deriving DecidableEq, Repr

def text (string : String) : Bytes := ascii string.toList

/-- `appendString`: the length is an `int32_t`. -/
def appendString (data : Bytes) : Bytes :=
  text "$" ++ printInt (Int.bmod data.length (2 ^ 32)) ++ text "\r\n" ++ data ++ text "\r\n"

/-- `appendArray`: a value that reads as the null reply is sent as one. -/
def appendArray (values : List Bytes) : Bytes :=
  text "*" ++ print values.length ++ text "\r\n" ++
    values.flatMap fun value => if value = text "$-1\r\n" then value else appendString value

/-- `appendInteger`: the value is an `int64_t`. -/
def appendInteger (value : Int) : Bytes :=
  text ":" ++ printInt (Int.bmod value (2 ^ 64)) ++ text "\r\n"

def Reply.text : Reply → Bytes
  | ok => RedisProtocol.text "+OK\r\n"
  | null => RedisProtocol.text "$-1\r\n"
  | ping => RedisProtocol.text "+PONG\r\n"
  | integer value => appendInteger value
  | bulk data => appendString data
  | arrays values => appendArray values
  | scoreMembers size entries =>
    RedisProtocol.text "*" ++ print size ++ RedisProtocol.text "\r\n" ++
      entries.flatMap appendString
  | emptyListOrSet => RedisProtocol.text "*0\r\n"
  | zrangebyscoreEmptySet => RedisProtocol.text "+(empty list or set)\r\n"
  | unknownCmd => RedisProtocol.text "-Error unkonwn command\r\n"
  | unknownOption => RedisProtocol.text "-Error unkonwn option\r\n"
  | formatError => RedisProtocol.text "-Error protocol format error\r\n"
  | msetFailed => RedisProtocol.text "-Error mset command failed, please set again\r\n"
  | wrongArgumentsNumber => RedisProtocol.text "-Error wrong number of arguments\r\n"
  | hsetFailed => RedisProtocol.text "-Error hset command failed, please set again\r\n"
  | hmsetFailed => RedisProtocol.text "-Error hmset command failed, please set again\r\n"
  | setexInvalidExpireTime => RedisProtocol.text "-Error invalid expire time in setex\r\n"
  | psetexInvalidExpireTime => RedisProtocol.text "-Error invalid expire time in psetex\r\n"
  | valueTypeError => RedisProtocol.text "-Error value is not an integer or out of range\r\n"
  | zaddFailed => RedisProtocol.text "-Error zadd command failed, please add again\r\n"
  | zaddValueTypeError => RedisProtocol.text "-ERR value is not a valid double\r\n"
  | zrangebyscoreCommandError => RedisProtocol.text "-ERR syntax error\r\n"
  | zrangebyscoreMinOrMaxError => RedisProtocol.text "-ERR min or max is not double\r\n"

/-- The errors about a request's arguments or their format; the other errors report a write that
the store refused. -/
def Reply.aboutArguments : Reply → Bool
  | unknownCmd | unknownOption | formatError | wrongArgumentsNumber | setexInvalidExpireTime
  | psetexInvalidExpireTime | valueTypeError | zaddValueTypeError | zrangebyscoreCommandError
  | zrangebyscoreMinOrMaxError => true
  | _ => false

structure Doubles (δ : Type) where
  tryTo : Bytes → Option δ
  toString : δ → Bytes
  add : δ → δ → δ
  neg : δ → δ
  greater : δ → δ → Bool
  equal : δ → δ → Bool
  /-- `FLT_MAX / LASER_FLOAT_AMPLIFICATION_FACTOR` -/
  largestScore : δ

structure Backend (δ : Type) where
  configGet : Bytes → Option Bytes
  configSet : Bytes → Bytes → Option Unit
  get : Bytes → Option Bytes
  set : Bytes → Bytes → Option Unit
  setex : Bytes → Int → Bytes → Option Unit
  append : Bytes → Bytes → Option UInt32
  existsKeys : List Bytes → Option UInt32
  mget : List Bytes → Option (List Bytes)
  mset : List (Bytes × Bytes) → Option Unit
  zadd : Bytes → List (Bytes × δ) → Option UInt32
  zrangebyscore : Bytes → δ → δ → Option (List (Bytes × δ))
  zremrangebyscore : Bytes → δ → δ → Option UInt32
  hget : Bytes → Bytes → Option Bytes
  hset : Bytes → Bytes → Bytes → Option Unit
  hmget : Bytes → List Bytes → Option (List Bytes)
  hmset : Bytes → List (Bytes × Bytes) → Option Unit
  hgetall : Bytes → Option (List (Bytes × Bytes))
  hkeys : Bytes → Option (List Bytes)
  hlen : Bytes → Option UInt32
  hexists : Bytes → Bytes → Option Unit
  hdel : Bytes → Bytes → Option Unit
  del : List Bytes → Option UInt32
  expire : Bytes → Int → Option Unit
  expireat : Bytes → Int → Option Unit
  ttl : Bytes → Option Int
  decr : Bytes → Option Int
  incr : Bytes → Option Int
  decrby : Bytes → Int → Option Int
  incrby : Bytes → Int → Option Int

structure Handlers (δ : Type) where
  registered : Callback → Bool
  backend : Backend δ
  doubles : Doubles δ

/-- `LaserProxyRedisHandler::getOrCreateRedisProtocol` registers every callback. -/
def getOrCreateRedisProtocol {δ : Type} (backend : Backend δ) (doubles : Doubles δ) :
    Handlers δ where
  registered := fun _ => true
  backend := backend
  doubles := doubles

inductive Action
  /-- `write_callback_` -/
  | write (reply : Reply)
  /-- a callback has changed the store -/
  | change (callback : Callback)
  /-- `error_callback_` releases the connection -/
  | release
  /-- an empty callback was called -/
  | throw
  deriving DecidableEq, Repr

section
variable {δ : Type} (handlers : Handlers δ)

variable (key field value : Bytes)

def whenRegistered (callback : Callback) (rest : List Action) : List Action :=
  if handlers.registered callback then rest else [.write .null]

def call {β : Type} (callback : Callback) (outcome : Option β) (rest : Option β → List Action) :
    List Action :=
  if handlers.registered callback then
    (if outcome.isSome && callback.writes then [.change callback] else []) ++ rest outcome
  else [.throw]

def answer {β : Type} (success : β → Reply) (failure : Reply) : Option β → List Action
  | some value => [.write (success value)]
  | none => [.write failure]

def callCmd {β : Type} (callback : Callback) (outcome : Option β) (success : β → Reply)
    (failure : Reply) : List Action :=
  whenRegistered handlers callback <| call handlers callback outcome <| answer success failure

/-- A count or a length that a callback returns in a `uint32_t`. -/
def Reply.count (value : UInt32) : Reply := .integer value.toNat

def configGetCmd : List Action :=
  callCmd handlers .configGet (handlers.backend.configGet key) (fun data => .arrays [key, data])
    .unknownOption

def configSetCmd : List Action :=
  callCmd handlers .configSet (handlers.backend.configSet key value) (fun _ => .ok) .unknownOption

def getCmd : List Action :=
  callCmd handlers .get (handlers.backend.get key) .bulk .null

def mgetCmd (keys : List Bytes) : List Action :=
  callCmd handlers .mget (handlers.backend.mget keys) .arrays .null

def setCmd : List Action :=
  callCmd handlers .set (handlers.backend.set key value) (fun _ => .ok) .null

def appendCmd : List Action :=
  callCmd handlers .append (handlers.backend.append key value) .count (.integer 0)

def decrCmd : List Action :=
  callCmd handlers .decr (handlers.backend.decr key) .integer .valueTypeError

def incrCmd : List Action :=
  callCmd handlers .incr (handlers.backend.incr key) .integer .valueTypeError

/-- The callback of `decr` is checked, that of `decrby` is called. -/
def decrbyCmd (step : Int) : List Action :=
  whenRegistered handlers .decr <| call handlers .decrby (handlers.backend.decrby key step) <|
    answer .integer .valueTypeError

/-- The callback of `incr` is checked, that of `incrby` is called. -/
def incrbyCmd (step : Int) : List Action :=
  whenRegistered handlers .incr <| call handlers .incrby (handlers.backend.incrby key step) <|
    answer .integer .valueTypeError

def incrbyfloatCmd (step : δ) : List Action :=
  let store (result : δ) : List Action :=
    let resultString := handlers.doubles.toString result
    .write (.bulk resultString) ::
      call handlers .set (handlers.backend.set key resultString) fun _ => []
  whenRegistered handlers .get <| whenRegistered handlers .set <|
    call handlers .get (handlers.backend.get key) fun
      | some data =>
        match handlers.doubles.tryTo data with
        | some value => store (handlers.doubles.add value step)
        | none => [.write .valueTypeError]
      | none => store step

def getsetCmd : List Action :=
  whenRegistered handlers .get <| whenRegistered handlers .set <|
    call handlers .get (handlers.backend.get key) fun outcome =>
      answer .bulk .null outcome ++ call handlers .set (handlers.backend.set key value) fun _ => []

def strlenCmd : List Action :=
  callCmd handlers .get (handlers.backend.get key) (fun data => .integer data.length) (.integer 0)

def setexCmd (seconds : Int) (value : Bytes) : List Action :=
  callCmd handlers .setex (handlers.backend.setex key (seconds * 1000) value) (fun _ => .ok) .null

def setnxCmd : List Action :=
  whenRegistered handlers .get <| whenRegistered handlers .set <|
    call handlers .get (handlers.backend.get key) fun
      | some _ => [.write (.integer 0)]
      | none => call handlers .set (handlers.backend.set key value) <|
          answer (fun _ => .integer 1) .null

def msetnxCmd (kvs : List (Bytes × Bytes)) : List Action :=
  let keys := kvs.map Prod.fst
  let mset := call handlers .mset (handlers.backend.mset kvs) <|
    answer (fun _ => .integer 1) .msetFailed
  whenRegistered handlers .mget <| whenRegistered handlers .mset <|
    call handlers .mget (handlers.backend.mget keys) fun
      | some values =>
        if values.count (text "$-1\r\n") < keys.length then [.write (.integer 0)] else mset
      | none => mset

def psetexCmd (milliseconds : Int) (value : Bytes) : List Action :=
  callCmd handlers .setex (handlers.backend.setex key milliseconds value) (fun _ => .ok) .null

def msetCmd (kvs : List (Bytes × Bytes)) : List Action :=
  callCmd handlers .mset (handlers.backend.mset kvs) (fun _ => .ok) .msetFailed

def zaddCmd (memberScores : List (Bytes × δ)) : List Action :=
  callCmd handlers .zadd (handlers.backend.zadd key memberScores) .count .zaddFailed

def boundNum (doubles : Doubles δ) (fixed : Bytes) (fixedNum : δ) (bound : Bytes) :
    Option (δ × Bool) :=
  if bound = fixed then some (fixedNum, true)
  else if bound.head? = some 40 then (doubles.tryTo bound.tail).map fun num => (num, false)
  else (doubles.tryTo bound).map fun num => (num, true)

def getMinAndMaxNum (doubles : Doubles δ) (strMin strMax : Bytes) :
    Option ((δ × Bool) × (δ × Bool)) := do
  let lower ← boundNum doubles (text "-inf") (doubles.neg doubles.largestScore) strMin
  let upper ← boundNum doubles (text "+inf") doubles.largestScore strMax
  return (lower, upper)

/-- A `uint32_t` less one. -/
def decremented (size : Nat) : Nat := (size + (2 ^ 32 - 1)) % 2 ^ 32

/-- `appendScoreMember`: the size is counted from the first and the last score only. -/
def appendScoreMember (doubles : Doubles δ) (values : List (Bytes × δ)) (flagScore : Bool)
    (lower upper : δ × Bool) : Option Reply := do
  let first ← values.head?
  let last ← values.getLast?
  let excluded (bound : δ × Bool) (score : δ) : Bool := !bound.2 && doubles.equal bound.1 score
  let size := values.length % 2 ^ 32
  let size := if excluded lower first.2 then decremented size else size
  let size := if excluded upper last.2 then decremented size else size
  let kept := values.filter fun value => !(excluded lower value.2 || excluded upper value.2)
  if size = 0 ∨ kept = [] then none
  else
    let size := if flagScore then size * 2 % 2 ^ 32 else size
    some <| .scoreMembers size <| kept.flatMap fun value =>
      if flagScore then [value.1, doubles.toString value.2] else [value.1]

def zrangebyscoreCmd (key min max : Bytes) (flagScore : Bool) : List Action :=
  whenRegistered handlers .zrangebyscore <|
    match getMinAndMaxNum handlers.doubles min max with
    | none => [.write .zrangebyscoreMinOrMaxError]
    | some (lower, upper) =>
      if handlers.doubles.greater lower.1 upper.1 then [.write .zrangebyscoreEmptySet]
      else call handlers .zrangebyscore (handlers.backend.zrangebyscore key lower.1 upper.1)
        fun outcome => answer id .zrangebyscoreEmptySet <|
          outcome.bind (appendScoreMember handlers.doubles · flagScore lower upper)

def zremrangebyscoreCmd (key strMin strMax : Bytes) : List Action :=
  whenRegistered handlers .zremrangebyscore <|
    match getMinAndMaxNum handlers.doubles strMin strMax with
    | none => [.write .valueTypeError]
    | some (lower, upper) =>
      if handlers.doubles.greater lower.1 upper.1 then [.write (.integer 0)]
      else call handlers .zremrangebyscore
        (handlers.backend.zremrangebyscore key lower.1 upper.1) (answer .count (.integer 0))

def hgetCmd : List Action :=
  callCmd handlers .hget (handlers.backend.hget key field) .bulk .null

def hsetCmd : List Action :=
  callCmd handlers .hset (handlers.backend.hset key field value) (fun _ => .integer 1) .hsetFailed

def hmgetCmd (fields : List Bytes) : List Action :=
  callCmd handlers .hmget (handlers.backend.hmget key fields) .arrays .null

def hmsetCmd (fvs : List (Bytes × Bytes)) : List Action :=
  callCmd handlers .hmset (handlers.backend.hmset key fvs) (fun _ => .ok) .hmsetFailed

def hgetallCmd : List Action :=
  callCmd handlers .hgetall (handlers.backend.hgetall key)
    (fun fvs => .arrays (fvs.flatMap fun entry => [entry.1, entry.2])) .emptyListOrSet

def hkeysCmd : List Action :=
  callCmd handlers .hkeys (handlers.backend.hkeys key) .arrays .emptyListOrSet

def hlenCmd : List Action :=
  callCmd handlers .hlen (handlers.backend.hlen key) .count .formatError

def hexistsCmd : List Action :=
  callCmd handlers .hexists (handlers.backend.hexists key field) (fun _ => .integer 1) (.integer 0)

def hdelCmd : List Action :=
  callCmd handlers .hdel (handlers.backend.hdel key field) (fun _ => .integer 1) (.integer 0)

def hvalsCmd : List Action :=
  callCmd handlers .hgetall (handlers.backend.hgetall key)
    (fun fvs => .arrays (fvs.map Prod.snd)) .emptyListOrSet

def hstrlenCmd : List Action :=
  callCmd handlers .hget (handlers.backend.hget key field) (fun data => .integer data.length)
    (.integer 0)

/-- The handlers that read a hash field and then write it reply null only if neither callback is
registered. -/
def whenEitherRegistered (first second : Callback) (rest : List Action) : List Action :=
  if !handlers.registered first && !handlers.registered second then [.write .null] else rest

def hsetnxCmd : List Action :=
  whenEitherRegistered handlers .hset .hexists <|
    call handlers .hexists (handlers.backend.hexists key field) fun
      | some _ => [.write (.integer 0)]
      | none => call handlers .hset (handlers.backend.hset key field value) <|
          answer (fun _ => .integer 1) (.integer 0)

/-- Add to the number in a hash field, which is read with `tryTo` and written with `toString`. -/
def hincr {β : Type} (tryTo : Bytes → Option β) (toString : β → Bytes) (add : β → β → β)
    (success : β → Reply) (key field : Bytes) (step : β) : List Action :=
  let store (result : β) : List Action :=
    call handlers .hset (handlers.backend.hset key field (toString result)) <|
      answer (fun _ => success result) .valueTypeError
  whenEitherRegistered handlers .hset .hget <|
    call handlers .hget (handlers.backend.hget key field) fun
      | some value =>
        match tryTo value with
        | some number => store (add number step)
        | none => [.write .valueTypeError]
      | none => store step

/-- `folly::tryTo<int32_t>`, which is not part of the repository: blanks, an optional sign and
digits are read, as its documentation says. -/
def tryToInt32 : Bytes → Option Int := parse (-2 ^ 31) (2 ^ 31 - 1)

/-- `folly::tryTo<int64_t>` -/
def tryToInt64 : Bytes → Option Int := parse (-2 ^ 63) (2 ^ 63 - 1)

def hincrbyCmd (step : Int) : List Action :=
  hincr handlers tryToInt64 printInt (fun number step => Int.bmod (number + step) (2 ^ 64))
    .integer key field step

def hincrbyfloatCmd (step : δ) : List Action :=
  hincr handlers handlers.doubles.tryTo handlers.doubles.toString handlers.doubles.add
    (fun result => .bulk (handlers.doubles.toString result)) key field step

def delCmd (keys : List Bytes) : List Action :=
  callCmd handlers .del (handlers.backend.del keys) .count (.integer 0)

def expireCmd (time : Int) : List Action :=
  callCmd handlers .expire (handlers.backend.expire key time) (fun _ => .integer 1) (.integer 0)

def expireAtCmd (timeAt : Int) : List Action :=
  callCmd handlers .expireat (handlers.backend.expireat key timeAt) (fun _ => .integer 1)
    (.integer 0)

def ttlCmd : List Action :=
  callCmd handlers .ttl (handlers.backend.ttl key)
    (fun ttl => .integer (if 1000 ≤ ttl then ttl / 1000 else if 0 ≤ ttl then -2 else ttl))
    (.integer (-3))

def pttlCmd : List Action :=
  callCmd handlers .ttl (handlers.backend.ttl key)
    (fun pttl => .integer (if pttl = 0 then -2 else pttl)) (.integer (-3))

def existsCmd (keys : List Bytes) : List Action :=
  callCmd handlers .existsKeys (handlers.backend.existsKeys keys) .count (.integer 0)

end

inductive Command
  | command | select | ping | ttl | pttl | quit | echo | expire | expireat | config
  | get | set | setex | psetex | append | decr | incr | decrby | incrby | incrbyfloat
  | getset | strlen | setnx | msetnx | mget | mset | zadd | zrangebyscore | zremrangebyscore
  | hget | hset | hmget | hmset | hgetall | hkeys | hlen | hexists | hdel | hvals | hstrlen
  | hsetnx | hincrby | hincrbyfloat | del | existsKeys
  deriving DecidableEq, Repr

def cmdTable : List (Bytes × Command) :=
  [(text "command", .command), (text "select", .select), (text "ping", .ping),
    (text "ttl", .ttl), (text "pttl", .pttl), (text "quit", .quit), (text "echo", .echo),
    (text "expire", .expire), (text "expireat", .expireat), (text "config", .config),
    (text "get", .get), (text "set", .set), (text "append", .append), (text "decr", .decr),
    (text "incr", .incr), (text "decrby", .decrby), (text "incrby", .incrby),
    (text "incrbyfloat", .incrbyfloat), (text "getset", .getset), (text "strlen", .strlen),
    (text "setex", .setex), (text "setnx", .setnx), (text "msetnx", .msetnx),
    (text "psetex", .psetex), (text "mget", .mget), (text "mset", .mset), (text "zadd", .zadd),
    (text "zrangebyscore", .zrangebyscore), (text "zremrangebyscore", .zremrangebyscore),
    (text "hget", .hget), (text "hset", .hset), (text "hmget", .hmget), (text "hmset", .hmset),
    (text "hgetall", .hgetall), (text "hkeys", .hkeys), (text "hlen", .hlen),
    (text "hexists", .hexists), (text "hdel", .hdel), (text "hvals", .hvals),
    (text "hstrlen", .hstrlen), (text "hsetnx", .hsetnx), (text "hincrby", .hincrby),
    (text "hincrbyfloat", .hincrbyfloat), (text "del", .del), (text "exists", .existsKeys)]

def toLowerAscii (bytes : Bytes) : Bytes :=
  bytes.map fun byte => if 65 ≤ byte ∧ byte ≤ 90 then byte + 32 else byte

/-- `std::map::insert` keeps the value that a key has. -/
def mapInsert (key value : Bytes) : List (Bytes × Bytes) → List (Bytes × Bytes)
  | [] => [(key, value)]
  | entry :: rest =>
    if entry.1 = key then entry :: rest
    else if key < entry.1 then (key, value) :: entry :: rest
    else entry :: mapInsert key value rest

def pairs : List Bytes → List (Bytes × Bytes)
  | first :: second :: rest => (first, second) :: pairs rest
  | _ => []

def toMap (entries : List (Bytes × Bytes)) : List (Bytes × Bytes) :=
  entries.foldl (fun kvs entry => mapInsert entry.1 entry.2 kvs) []

/-- The scores of `zadd` are read up to the first that is not a number; whether there is one. -/
def readScores {δ : Type} (doubles : Doubles δ) :
    List (Bytes × Bytes) → List (Bytes × δ) → List (Bytes × δ) × Bool
  | [], memberScores => (memberScores, false)
  | (score, member) :: rest, memberScores =>
    match doubles.tryTo score with
    | none => (memberScores, true)
    | some value =>
      readScores doubles rest <|
        if (memberScores.map Prod.fst).contains member then memberScores
        else memberScores ++ [(member, value)]

def withArguments (accepted : Bool) (rest : List Action) : List Action :=
  if accepted then rest else [.write .wrongArgumentsNumber]

def withNumber {β : Type} (number : Option β) (refusal : Reply) (rest : β → List Action) :
    List Action :=
  match number with
  | some value => rest value
  | none => [.write refusal]

variable {δ : Type} (handlers : Handlers δ)

/-- The switch of `RedisProtocol::end`, for a request and the last line that came of it. -/
def execute (cmd : Command) (msg : Bytes) (info : List Bytes) : List Action :=
  let arg (index : Nat) : Bytes := info.getD index []
  let size := info.length
  match cmd with
  | .command | .select => [.write .ok]
  | .ping => [.write .ping]
  | .ttl => withArguments (size == 2) (ttlCmd handlers (arg 1))
  | .pttl => withArguments (size == 2) (pttlCmd handlers (arg 1))
  | .quit => [.write .ok, .release]
  | .echo => withArguments (size == 2) [.write (.bulk (arg 1))]
  | .expire => withArguments (size == 3) <|
      withNumber (tryToInt64 (arg 2)) .valueTypeError (expireCmd handlers (arg 1))
  | .expireat => withArguments (size == 3) <|
      withNumber (tryToInt64 (arg 2)) .valueTypeError (expireAtCmd handlers (arg 1))
  | .config => withArguments (2 ≤ size) <|
      if toLowerAscii (arg 1) = text "set" then
        withArguments (size == 4) (configSetCmd handlers (arg 2) (arg 3))
      else if toLowerAscii (arg 1) = text "get" then
        withArguments (size == 3) (configGetCmd handlers (arg 2))
      else [.write .unknownCmd]
  | .get => withArguments (size == 2) (getCmd handlers (arg 1))
  | .set => withArguments (size == 3) (setCmd handlers (arg 1) (arg 2))
  | .append => withArguments (size == 3) (appendCmd handlers (arg 1) (arg 2))
  | .decr => withArguments (size == 2) (decrCmd handlers (arg 1))
  | .incr => withArguments (size == 2) (incrCmd handlers (arg 1))
  | .decrby => withArguments (size == 3) <|
      withNumber (tryToInt64 (arg 2)) .valueTypeError (decrbyCmd handlers (arg 1))
  | .incrby => withArguments (size == 3) <|
      withNumber (tryToInt64 (arg 2)) .valueTypeError (incrbyCmd handlers (arg 1))
  | .incrbyfloat => withArguments (size == 3) <|
      withNumber (handlers.doubles.tryTo (arg 2)) .valueTypeError (incrbyfloatCmd handlers (arg 1))
  | .getset => withArguments (size == 3) (getsetCmd handlers (arg 1) (arg 2))
  | .strlen => withArguments (size == 2) (strlenCmd handlers (arg 1))
  | .setex => withArguments (size == 4) <|
      withNumber ((tryToInt32 (arg 2)).filter (0 ≤ ·)) .setexInvalidExpireTime fun seconds =>
        setexCmd handlers (arg 1) seconds (arg 3)
  | .setnx => withArguments (size == 3) (setnxCmd handlers (arg 1) (arg 2))
  | .msetnx => withArguments (3 ≤ size && size % 2 == 1) <|
      msetnxCmd handlers (toMap (pairs (info.drop 1)))
  | .psetex => withArguments (size == 4) <|
      withNumber ((tryToInt64 (arg 2)).filter (0 ≤ ·)) .psetexInvalidExpireTime
        fun milliseconds => psetexCmd handlers (arg 1) milliseconds (arg 3)
  | .mget => withArguments (2 ≤ size) (mgetCmd handlers (info.drop 1))
  | .mset => withArguments (3 ≤ size && size % 2 == 1) <|
      msetCmd handlers (toMap (pairs (info.drop 1)))
  | .zadd => withArguments (4 ≤ size && size % 2 == 0) <|
      let scores := readScores handlers.doubles (pairs (info.drop 2)) []
      (if scores.2 then [.write .zaddValueTypeError] else []) ++ zaddCmd handlers (arg 1) scores.1
  | .zrangebyscore => withArguments (4 ≤ size) <|
      let flagScore := size == 5 && toLowerAscii (arg 4) == text "withscores"
      (if size == 5 && !flagScore then [.write .zrangebyscoreCommandError] else []) ++
        zrangebyscoreCmd handlers (arg 1) (arg 2) (arg 3) flagScore
  | .zremrangebyscore => withArguments (size == 4) <|
      zremrangebyscoreCmd handlers (arg 1) (arg 2) (arg 3)
  | .hget => withArguments (size == 3) (hgetCmd handlers (arg 1) (arg 2))
  | .hset => withArguments (size == 4) (hsetCmd handlers (arg 1) (arg 2) (arg 3))
  | .hmget => withArguments (3 ≤ size) (hmgetCmd handlers (arg 1) (info.drop 2))
  | .hmset => withArguments (4 ≤ size && size % 2 == 0) <|
      hmsetCmd handlers (arg 1) (toMap (pairs (info.drop 2)))
  | .hgetall => withArguments (size == 2) (hgetallCmd handlers msg)
  | .hkeys => withArguments (size == 2) (hkeysCmd handlers msg)
  | .hlen => withArguments (size == 2) (hlenCmd handlers msg)
  | .hexists => withArguments (size == 3) (hexistsCmd handlers (arg 1) (arg 2))
  | .hdel => withArguments (size == 3) (hdelCmd handlers (arg 1) (arg 2))
  | .hvals => withArguments (size == 2) (hvalsCmd handlers msg)
  | .hstrlen => withArguments (size == 3) (hstrlenCmd handlers (arg 1) (arg 2))
  | .hsetnx => withArguments (size == 4) (hsetnxCmd handlers (arg 1) (arg 2) (arg 3))
  | .hincrby => withArguments (size == 4) <|
      withNumber (tryToInt64 (arg 3)) .valueTypeError (hincrbyCmd handlers (arg 1) (arg 2))
  | .hincrbyfloat => withArguments (size == 4) <|
      withNumber (handlers.doubles.tryTo (arg 3)) .valueTypeError
        (hincrbyfloatCmd handlers (arg 1) (arg 2))
  | .del => withArguments (2 ≤ size) (delCmd handlers (info.drop 1))
  | .existsKeys => withArguments (2 ≤ size) (existsCmd handlers (info.drop 1))

/-- `RedisProtocol::end` for a request that begins with `name`; `msg` is its last line. -/
def finish (msg name : Bytes) (arguments : List Bytes) : List Action :=
  match cmdTable.lookup (toLowerAscii name) with
  | none => [.write .unknownCmd]
  | some cmd => execute handlers cmd msg (toLowerAscii name :: arguments)

end LaserDB.RedisProtocol
