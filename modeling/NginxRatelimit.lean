import NginxRatelimit.Config.Settings
import NginxRatelimit.Pool.Isolation
import NginxRatelimit.Request.Delivery
import NginxRatelimit.Request.Exits
import NginxRatelimit.Request.Frame
import NginxRatelimit.Request.Grammar
import NginxRatelimit.Request.Headers
import NginxRatelimit.Request.Once
import NginxRatelimit.Request.Pass
import NginxRatelimit.Request.Resend
import NginxRatelimit.Request.Stall
import NginxRatelimit.Request.Verdict
import NginxRatelimit.Request.Wipe
import NginxRatelimit.Script.Contract
import NginxRatelimit.Script.Namespace
import NginxRatelimit.Script.Peek
import NginxRatelimit.Script.Recovery
import NginxRatelimit.Script.Retry
import NginxRatelimit.Script.Transparency
import NginxRatelimit.Server.Configured
import NginxRatelimit.Server.Log
import NginxRatelimit.Server.Cache
import NginxRatelimit.Server.Progress
