import StoreClient.ByteSeq.Basic

/-! # Keywords

The tokens of store commands.  A keyword has one upper-case token, is ordered by its place in
`Keyword.all`, and is found again from its token in any ASCII case. -/

namespace StoreClient

inductive Keyword where
  -- keys
  | del | existsKey | expire | pExpire | ttl | pTtl | type | scan
  -- strings
  | get | set | setNx | getSet | mGet | mSet | incr | incrBy | incrByFloat | decr | decrBy
  -- hashes
  | hGet | hSet | hDel | hGetAll | hIncrBy
  -- lists
  | lPush | rPush | lPop | rPop | blPop | lRange | lLen
  -- sets
  | sAdd | sRem | sMembers
  -- sorted sets
  | zAdd | zRem | zRange | zRangeByScore | zRemRangeByScore | zScore | zCard
  -- pub/sub
  | publish | subscribe | pSubscribe | unsubscribe | pUnsubscribe
  -- scripting and transactions
  | eval | evalSha | script | load | multi | exec | watch | unwatch
  -- connection
  | ping | auth | select | info | config
  -- options
  | ex | px | nx | xx | keepTtl | withScores | limit | matchPattern | count
  deriving DecidableEq, Ord, Repr

namespace Keyword

/-- Every keyword, in order. -/
def all : List Keyword := [
  .del, .existsKey, .expire, .pExpire, .ttl, .pTtl, .type, .scan, .get, .set, .setNx, .getSet,
  .mGet, .mSet, .incr, .incrBy, .incrByFloat, .decr, .decrBy, .hGet, .hSet, .hDel, .hGetAll,
  .hIncrBy, .lPush, .rPush, .lPop, .rPop, .blPop, .lRange, .lLen, .sAdd, .sRem, .sMembers, .zAdd,
  .zRem, .zRange, .zRangeByScore, .zRemRangeByScore, .zScore, .zCard, .publish, .subscribe,
  .pSubscribe, .unsubscribe, .pUnsubscribe, .eval, .evalSha, .script, .load, .multi, .exec,
  .watch, .unwatch, .ping, .auth, .select, .info, .config, .ex, .px, .nx, .xx, .keepTtl,
  .withScores, .limit, .matchPattern, .count]

/-- The token on the wire. -/
def token : Keyword → String
  | del => "DEL"
  | existsKey => "EXISTS"
  | expire => "EXPIRE"
  | pExpire => "PEXPIRE"
  | ttl => "TTL"
  | pTtl => "PTTL"
  | type => "TYPE"
  | scan => "SCAN"
  | get => "GET"
  | set => "SET"
  | setNx => "SETNX"
  | getSet => "GETSET"
  | mGet => "MGET"
  | mSet => "MSET"
  | incr => "INCR"
  | incrBy => "INCRBY"
  | incrByFloat => "INCRBYFLOAT"
  | decr => "DECR"
  | decrBy => "DECRBY"
  | hGet => "HGET"
  | hSet => "HSET"
  | hDel => "HDEL"
  | hGetAll => "HGETALL"
  | hIncrBy => "HINCRBY"
  | lPush => "LPUSH"
  | rPush => "RPUSH"
  | lPop => "LPOP"
  | rPop => "RPOP"
  | blPop => "BLPOP"
  | lRange => "LRANGE"
  | lLen => "LLEN"
  | sAdd => "SADD"
  | sRem => "SREM"
  | sMembers => "SMEMBERS"
  | zAdd => "ZADD"
  | zRem => "ZREM"
  | zRange => "ZRANGE"
  | zRangeByScore => "ZRANGEBYSCORE"
  | zRemRangeByScore => "ZREMRANGEBYSCORE"
  | zScore => "ZSCORE"
  | zCard => "ZCARD"
  | publish => "PUBLISH"
  | subscribe => "SUBSCRIBE"
  | pSubscribe => "PSUBSCRIBE"
  | unsubscribe => "UNSUBSCRIBE"
  | pUnsubscribe => "PUNSUBSCRIBE"
  | eval => "EVAL"
  | evalSha => "EVALSHA"
  | script => "SCRIPT"
  | load => "LOAD"
  | multi => "MULTI"
  | exec => "EXEC"
  | watch => "WATCH"
  | unwatch => "UNWATCH"
  | ping => "PING"
  | auth => "AUTH"
  | select => "SELECT"
  | info => "INFO"
  | config => "CONFIG"
  | ex => "EX"
  | px => "PX"
  | nx => "NX"
  | xx => "XX"
  | keepTtl => "KEEPTTL"
  | withScores => "WITHSCORES"
  | limit => "LIMIT"
  | matchPattern => "MATCH"
  | count => "COUNT"

/-- The token's bytes. -/
def bytes (k : Keyword) : Bytes := .ofAscii k.token.toList

/-- The token as a sequence. -/
def seq (k : Keyword) : ByteSeq := .array k.bytes

/-- The upper-case form of an ASCII letter; any other byte stays. -/
def upper (b : UInt8) : UInt8 := if 97 ≤ b ∧ b ≤ 122 then b - 32 else b

/-- The keyword of a token in any ASCII case. -/
def ofBytes? (token : Bytes) : Option Keyword :=
  all.find? fun k => k.bytes.map upper == token.map upper

theorem mem_all (k : Keyword) : k ∈ all := by cases k <;> decide

end Keyword
end StoreClient
