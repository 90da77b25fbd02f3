import HttpServer.Parser.Basic

namespace Http

-- The settings that decide what the server does. Durations are given in ticks of the steady clock;
-- there is no idle timeout if the configured one is not positive.
structure Config where
  workers             : Nat := 4
  maxQueue            : Nat := 1024
  maxConnections      : Nat := 4096
  maxRequestLineBytes : Nat := 8 * 1024
  maxHeaderBytes      : Nat := 64 * 1024
  maxBodyBytes        : Nat := 8 * 1024 * 1024
  maxRequestBytes     : Nat := 9 * 1024 * 1024
  maxOutputBytes      : Nat := 16 * 1024 * 1024
  maxResponseBytes    : Nat := 8 * 1024 * 1024
  idleTimeout         : Option Nat := some 15000000000
  shutdownTimeout     : Nat := 5000000000
  tickMs              : Nat := 200

-- The limits that a connection passes to its parser.
def Config.limits (cfg : Config) : ParserLimits where
  maxRequestLineBytes := cfg.maxRequestLineBytes
  maxHeaderBytes      := cfg.maxHeaderBytes
  maxBodyBytes        := cfg.maxBodyBytes
  maxRequestBytes     := cfg.maxRequestBytes
  maxHeaderFields     := 256

end Http
