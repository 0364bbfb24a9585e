import NginxRatelimit.Request.Conf

/-!
# The Lua texts

The four scripts as they are sent to the server, and the table in which
`ngx_http_ratelimit_script_init` keeps them with their SHA1. What they compute is in
`Script.Lua`.
-/

namespace NginxRatelimit

/-- Lines with their line feeds. -/
def luaText (lines : List String) : Bytes := lines.flatMap fun line => text line ++ [LF]

/-- `ngx_http_ratelimit_fixed_window_lua`. -/
def fixedWindowLua : Bytes := luaText [
  "local limit = tonumber(ARGV[1])",
  "local window = tonumber(ARGV[2])",
  "local quantity = tonumber(ARGV[3])",
  "local current = tonumber(redis.call('GET', KEYS[1]) or '0')",
  "if quantity == 0 then",
  "  local ttl = redis.call('TTL', KEYS[1])",
  "  if ttl < 0 then ttl = 0 end",
  "  local remaining = limit - current",
  "  if remaining < 0 then remaining = 0 end",
  "  local status = 0",
  "  if current >= limit then status = 1 end",
  "  return \x7bstatus, limit, remaining, -1, ttl\x7d",
  "end",
  "if current + quantity > limit then",
  "  local ttl = redis.call('TTL', KEYS[1])",
  "  if ttl < 0 then ttl = window end",
  "  local remaining = limit - current",
  "  if remaining < 0 then remaining = 0 end",
  "  local retry_after = ttl",
  "  if retry_after < 1 then retry_after = 1 end",
  "  return \x7b1, limit, remaining, retry_after, ttl\x7d",
  "end",
  "local newval = redis.call('INCRBY', KEYS[1], quantity)",
  "local ttl",
  "if newval == quantity then",
  "  redis.call('EXPIRE', KEYS[1], window)",
  "  ttl = window",
  "else",
  "  ttl = redis.call('TTL', KEYS[1])",
  "  if ttl < 0 then",
  "    redis.call('EXPIRE', KEYS[1], window)",
  "    ttl = window",
  "  end",
  "end",
  "local remaining = limit - newval",
  "if remaining < 0 then remaining = 0 end",
  "return \x7b0, limit, remaining, -1, ttl\x7d"]

/-- `ngx_http_ratelimit_token_bucket_lua`. -/
def tokenBucketLua : Bytes := luaText [
  "local requests = tonumber(ARGV[1])",
  "local period = tonumber(ARGV[2])",
  "local burst = tonumber(ARGV[3])",
  "local quantity = tonumber(ARGV[4])",
  "local capacity = requests + burst",
  "local rate = requests / period",
  "local t = redis.call('TIME')",
  "local now = tonumber(t[1]) + tonumber(t[2]) / 1000000",
  "local data = redis.call('HMGET', KEYS[1], 'tokens', 'ts')",
  "local tokens = tonumber(data[1])",
  "local ts = tonumber(data[2])",
  "if tokens == nil then",
  "  tokens = capacity",
  "  ts = now",
  "end",
  "local elapsed = now - ts",
  "if elapsed > 0 then",
  "  tokens = tokens + elapsed * rate",
  "  if tokens > capacity then tokens = capacity end",
  "  ts = now",
  "end",
  "local ttl = math.ceil(capacity / rate)",
  "if ttl < 1 then ttl = 1 end",
  "local reset = math.ceil((capacity - tokens) / rate)",
  "if reset < 0 then reset = 0 end",
  "if quantity == 0 then",
  "  local status = 0",
  "  if tokens < 1 then status = 1 end",
  "  return \x7bstatus, capacity, math.floor(tokens), -1, reset\x7d",
  "end",
  "if tokens >= quantity then",
  "  tokens = tokens - quantity",
  "  redis.call('HSET', KEYS[1], 'tokens', string.format('%.6f', tokens), 'ts', string.format('%.6f', ts))",
  "  redis.call('EXPIRE', KEYS[1], ttl)",
  "  reset = math.ceil((capacity - tokens) / rate)",
  "  if reset < 0 then reset = 0 end",
  "  return \x7b0, capacity, math.floor(tokens), -1, reset\x7d",
  "end",
  "redis.call('HSET', KEYS[1], 'tokens', string.format('%.6f', tokens), 'ts', string.format('%.6f', ts))",
  "redis.call('EXPIRE', KEYS[1], ttl)",
  "local retry_after = math.ceil((quantity - tokens) / rate)",
  "if retry_after < 1 then retry_after = 1 end",
  "return \x7b1, capacity, math.floor(tokens), retry_after, reset\x7d"]

/-- `ngx_http_ratelimit_gcra_lua`. -/
def gcraLua : Bytes := luaText [
  "local requests = tonumber(ARGV[1])",
  "local period = tonumber(ARGV[2])",
  "local burst = tonumber(ARGV[3])",
  "local quantity = tonumber(ARGV[4])",
  "local emission = period / requests",
  "local t = redis.call('TIME')",
  "local now = tonumber(t[1]) + tonumber(t[2]) / 1000000",
  "local tat = tonumber(redis.call('GET', KEYS[1]))",
  "if tat == nil then tat = now end",
  "if tat < now then tat = now end",
  "local limit = burst + 1",
  "local horizon = emission * (burst + 1)",
  "if quantity == 0 then",
  "  -- peek: report the current state without advancing the TAT, so a",
  "  -- fresh limiter reads full capacity and reset 0, like the other algos",
  "  local avail = math.floor((now - (tat - horizon)) / emission)",
  "  if avail > limit then avail = limit end",
  "  local status = 0",
  "  if avail < 1 then status = 1 end",
  "  local reset = math.ceil(tat - now)",
  "  if reset < 0 then reset = 0 end",
  "  return \x7bstatus, limit, avail, -1, reset\x7d",
  "end",
  "local new_tat = tat + emission * quantity",
  "local allow_at = new_tat - horizon",
  "local diff = now - allow_at",
  "if diff < 0 then",
  "  local retry_after = math.ceil(-diff)",
  "  if retry_after < 1 then retry_after = 1 end",
  "  local reset = math.ceil(tat - now)",
  "  if reset < 0 then reset = 0 end",
  "  return \x7b1, limit, 0, retry_after, reset\x7d",
  "end",
  "local remaining = math.floor(diff / emission)",
  "local reset = math.ceil(new_tat - now)",
  "if reset < 0 then reset = 0 end",
  "redis.call('SET', KEYS[1], string.format('%.6f', new_tat))",
  "local ttl = math.ceil(new_tat - now)",
  "if ttl < 1 then ttl = 1 end",
  "redis.call('EXPIRE', KEYS[1], ttl)",
  "return \x7b0, limit, remaining, -1, reset\x7d"]

/-- `ngx_http_ratelimit_sliding_window_lua`. -/
def slidingWindowLua : Bytes := luaText [
  "local limit = tonumber(ARGV[1])",
  "local window = tonumber(ARGV[2])",
  "local quantity = tonumber(ARGV[3])",
  "local t = redis.call('TIME')",
  "local now = tonumber(t[1]) + tonumber(t[2]) / 1000000",
  "local cur_win = math.floor(now / window)",
  "local elapsed = now - cur_win * window",
  "local weight = (window - elapsed) / window",
  "local data = redis.call('HMGET', KEYS[1], 'c', 'w', 'p')",
  "local c = tonumber(data[1])",
  "local w = tonumber(data[2])",
  "local p = tonumber(data[3])",
  "if c == nil then",
  "  c = 0",
  "  w = cur_win",
  "  p = 0",
  "end",
  "if w == cur_win - 1 then",
  "  p = c",
  "  c = 0",
  "  w = cur_win",
  "elseif w ~= cur_win then",
  "  p = 0",
  "  c = 0",
  "  w = cur_win",
  "end",
  "local est = p * weight + c",
  "local remaining = math.floor(limit - est)",
  "if remaining < 0 then remaining = 0 end",
  "local win_remaining = math.ceil(window - elapsed)",
  "if win_remaining < 0 then win_remaining = 0 end",
  "if quantity == 0 then",
  "  local status = 0",
  "  if est >= limit then status = 1 end",
  "  local reset = 0",
  "  if c > 0 or p > 0 then reset = win_remaining end",
  "  return \x7bstatus, limit, remaining, -1, reset\x7d",
  "end",
  "if est + quantity > limit then",
  "  local headroom = limit - quantity - c",
  "  local retry_after",
  "  if p > 0 and headroom >= 0 then",
  "    retry_after = math.ceil((window - elapsed) - headroom * window / p)",
  "  else",
  "    retry_after = win_remaining",
  "  end",
  "  if retry_after < 1 then retry_after = 1 end",
  "  return \x7b1, limit, remaining, retry_after, win_remaining\x7d",
  "end",
  "c = c + quantity",
  "redis.call('HSET', KEYS[1], 'c', c, 'w', w, 'p', p)",
  "redis.call('EXPIRE', KEYS[1], window * 2)",
  "est = p * weight + c",
  "remaining = math.floor(limit - est)",
  "if remaining < 0 then remaining = 0 end",
  "return \x7b0, limit, remaining, -1, win_remaining\x7d"]

/-- The text of a built-in algorithm; the table has none for `algo=custom`. -/
def scriptBody : Algo → Bytes
  | .fixedWindow => fixedWindowLua
  | .tokenBucket => tokenBucketLua
  | .gcra => gcraLua
  | .slidingWindow => slidingWindowLua
  | .custom => []

/-- The table `ngx_http_ratelimit_scripts` after `ngx_http_ratelimit_script_init`. -/
def scriptInit (sha1 : Bytes → Bytes) (algo : Algo) : Script :=
  ⟨scriptBody algo, sha1 (scriptBody algo)⟩

end NginxRatelimit
