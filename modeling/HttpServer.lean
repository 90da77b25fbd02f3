import HttpServer.Handler.Theorems.Replies
import HttpServer.Handler.Theorems.Splitting
import HttpServer.Handler.Theorems.Mirror
import HttpServer.Handler.Theorems.Trailers
import HttpServer.Handler.Theorems.Printable
import HttpServer.Handler.Theorems.Preview
import HttpServer.Parser.Theorems.Completeness
import HttpServer.Parser.Theorems.Soundness
import HttpServer.Parser.Theorems.Fragmentation
import HttpServer.Parser.Theorems.Suffix
import HttpServer.Parser.Theorems.Totality
import HttpServer.Parser.Theorems.Limits
import HttpServer.Parser.Theorems.Unambiguous
import HttpServer.Parser.Theorems.Cutting
import HttpServer.Parser.Theorems.Cap
import HttpServer.Parser.Theorems.Scan
import HttpServer.Parser.Theorems.Numbers
import HttpServer.Objects.Theorems.Pool
import HttpServer.Objects.Theorems.ByteBuf
import HttpServer.Loop.Theorems.Wakeup
import HttpServer.Loop.Theorems.Flushing
import HttpServer.Loop.Theorems.Framing
import HttpServer.Loop.Theorems.HalfClose
import HttpServer.Loop.Theorems.Graceful
import HttpServer.Loop.Theorems.Bounds
import HttpServer.Loop.Theorems.Continue
import HttpServer.Loop.Theorems.Listener
import HttpServer.Loop.Theorems.Sequential
import HttpServer.Objects.Theorems.Joining
import HttpServer.Objects.Theorems.Date
import HttpServer.Loop.Theorems.Memory
import HttpServer.Loop.Theorems.Timeout
import HttpServer.Loop.Theorems.Returning
import HttpServer.Loop.Theorems.Process
import HttpServer.Loop.Theorems.Options
