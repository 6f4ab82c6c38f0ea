import SpnegoProxy.Impl.Go.Strings

/-!
# Errors: `errors.go`, `errors_proxy.go`

The errors of token acquisition, and the error responses the proxy sends. A
Go error is known by the chain that `errors.Is` and `errors.As` walk: the
error itself, then what each error in turn wraps.
-/

namespace SP.Impl

/-- One error of a chain. -/
inductive ErrNode where
  /-- A `*CircuitBreakerError` with its message. -/
  | circuitBreaker (msg : String)
  /-- A `*CredentialError` with its message. -/
  | credential (msg : String)
  /-- A `*NegotiationError` with its message. -/
  | negotiation (msg : String)
  /-- `gobreaker.ErrOpenState`. -/
  | openState
  /-- `gobreaker.ErrTooManyRequests`. -/
  | tooManyRequests
  | other (msg : String)
  deriving DecidableEq, Repr

def ErrNode.isSentinel : ErrNode → Bool
  | .openState | .tooManyRequests => true
  | _ => false

def ErrNode.isCircuitBreaker : ErrNode → Bool
  | .circuitBreaker _ => true
  | _ => false

def ErrNode.isCredential : ErrNode → Bool
  | .credential _ => true
  | _ => false

def ErrNode.isNegotiation : ErrNode → Bool
  | .negotiation _ => true
  | _ => false

/-- Every `*CircuitBreakerError` of the chain wraps one of `gobreaker`'s
sentinels, as its `Unwrap` promises. -/
def ErrNode.wrapsSentinel : List ErrNode → Bool
  | [] => true
  | n :: ns => (!n.isCircuitBreaker || ns.any ErrNode.isSentinel) && wrapsSentinel ns

/-- A Go error, by its chain. -/
structure GoError where
  chain : List ErrNode
  wraps : ErrNode.wrapsSentinel chain = true
  deriving DecidableEq

/-- `errors.Is(err, n)`. -/
def GoError.is (e : GoError) (n : ErrNode) : Bool := e.chain.contains n

/-- `errors.As(err, &t)` for `t` of the type that `p` recognises. -/
def GoError.as (e : GoError) (p : ErrNode → Bool) : Bool := e.chain.any p

/-- `proxyError`: an error response to the client. -/
structure ProxyError where
  statusCode : Nat
  errorType : String
  message : String
  action : String
  deriving DecidableEq, Repr

/-- `proxyError.body`. -/
def ProxyError.body (e : ProxyError) : String :=
  if e.action = "" then s!"spnego-proxy error: {e.errorType}\n\n{e.message}\n"
  else s!"spnego-proxy error: {e.errorType}\n\n{e.message}\n\nSuggested action: {e.action}\n"

def errConnectionTimeout : ProxyError where
  statusCode := 504
  errorType := "connection_timeout"
  message := "The proxy timed out connecting to the upstream proxy."
  action := "Verify the upstream proxy address and that it is reachable from this host. Check for network connectivity issues or firewall rules."

def errConnectionRefused : ProxyError where
  statusCode := 502
  errorType := "connection_refused"
  message := "The upstream proxy refused the connection."
  action := "Verify the upstream proxy is running and listening on the configured address. Check firewall rules and network connectivity."

def errTokenAcquisition : ProxyError where
  statusCode := 502
  errorType := "proxy_internal_error"
  message := "The proxy failed to acquire a SPNEGO authentication token."
  action := "Check Kerberos credentials. Run 'klist' to verify a valid ticket exists, or 'kinit' to obtain a new one."

def errCredentialFailure : ProxyError where
  statusCode := 502
  errorType := "proxy_internal_error"
  message := "Kerberos credentials are expired or unavailable."
  action := "Run 'kinit' to obtain or refresh Kerberos credentials, then retry. Run 'klist' to check current ticket status."

def errNegotiationFailure : ProxyError where
  statusCode := 502
  errorType := "proxy_internal_error"
  message := "SPNEGO negotiation with the KDC failed."
  action := "Check the service principal name (-spn flag) and Kerberos realm configuration. Verify the KDC is reachable."

def errCircuitBreakerOpen : ProxyError where
  statusCode := 502
  errorType := "proxy_internal_error"
  message := "Token acquisition is temporarily disabled after repeated failures (circuit breaker open)."
  action := "The proxy will automatically retry after a cooldown period. Check Kerberos credentials and the KDC. Run 'klist' to verify ticket status."

def errHTTPRequestError : ProxyError where
  statusCode := 400
  errorType := "http_request_error"
  message := "The proxy could not read or parse the HTTP request."
  action := "Verify the client is sending a well-formed HTTP request to the proxy."

def errConnectionTerminated : ProxyError where
  statusCode := 502
  errorType := "connection_terminated"
  message := "The connection to the upstream proxy was lost while relaying the request."
  action := "The upstream proxy may have closed the connection unexpectedly. Retry the request."

def errProxyLoopDetected : ProxyError where
  statusCode := 502
  errorType := "proxy_loop_detected"
  message := "A routing loop was detected: the request has already passed through this proxy instance."
  action := "Check the proxy chain configuration for circular routing. The Via header in the request contains this proxy's identity."

def errInvalidContentLength : ProxyError where
  statusCode := 502
  errorType := "http_protocol_error"
  message := "The upstream proxy sent a response with an invalid Content-Length header."
  action := "This may indicate a misconfigured upstream proxy or an attempt at response splitting. Contact the upstream proxy administrator."

def errMalformedResponseHeader : ProxyError where
  statusCode := 502
  errorType := "http_protocol_error"
  message := "The upstream proxy sent a response containing a header field with a malformed name or a forbidden control character in its value."
  action := "This may indicate a misconfigured upstream proxy or an attempt at response splitting. Contact the upstream proxy administrator."

def errForbiddenPort : ProxyError where
  statusCode := 403
  errorType := "http_request_denied"
  message := "CONNECT to the requested port is not allowed."
  action := "The proxy restricts CONNECT tunneling to specific ports. Contact the proxy administrator."

def errUnparseableResponse : ProxyError where
  statusCode := 502
  errorType := "http_protocol_error"
  message := "The upstream proxy sent a response that could not be parsed as valid HTTP."
  action := "This may indicate a misconfigured upstream proxy. Contact the upstream proxy administrator."

def errClientDenied : ProxyError where
  statusCode := 403
  errorType := "http_request_denied"
  message := "Client IP is not in the allowlist."
  action := "Contact the proxy administrator to add your IP to the -allowed-ips list."

def errMismatchedTarget : ProxyError where
  statusCode := 400
  errorType := "http_request_denied"
  message := "Pipelined request is incompatible with the existing direct connection."
  action := "Open a new connection to the proxy and retry."

/-- `tokenErrorToProxyError`. -/
def tokenErrorToProxyError (e : GoError) : ProxyError :=
  if e.as ErrNode.isCircuitBreaker then errCircuitBreakerOpen
  else if e.as ErrNode.isCredential then errCredentialFailure
  else if e.as ErrNode.isNegotiation then errNegotiationFailure
  else errTokenAcquisition

/-- Why a response of the next hop was not accepted. -/
inductive RespErr where
  | contentLengthInvalid
  | malformedResponse
  | other (err : Go.Str)
  deriving DecidableEq

/-- The error response `handleUpstreamResponseError` sends. -/
def upstreamResponseError : RespErr → ProxyError
  | .contentLengthInvalid => errInvalidContentLength
  | .malformedResponse => errMalformedResponseHeader
  | .other _ => errUnparseableResponse

/-- Why `readRequest` returned no request. -/
inductive ReadErr where
  /-- `errSessionShutdown`. -/
  | shutdown
  | eof
  | closed
  | connReset
  | brokenPipe
  | other (err : Go.Str)
  deriving DecidableEq

/-- `isExpectedCloseError`. -/
def isExpectedCloseError : ReadErr → Bool
  | .eof | .closed | .connReset | .brokenPipe => true
  | _ => false

/-- A failed dial: whether the error is a timeout. -/
structure DialErr where
  timeout : Bool
  deriving DecidableEq, Repr

/-- The error response `handleDialError` sends. -/
def dialError (e : DialErr) : ProxyError :=
  if e.timeout then errConnectionTimeout else errConnectionRefused

end SP.Impl
