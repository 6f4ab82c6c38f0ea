import SpnegoProxy.Proof.Breaker
import SpnegoProxy.Proof.Serve
import SpnegoProxy.Proof.Session.Connect
import SpnegoProxy.Proof.Session.Credentials
import SpnegoProxy.Proof.Session.Exchange
import SpnegoProxy.Proof.Session.Pairing
import SpnegoProxy.Proof.Session.Policy
import SpnegoProxy.Proof.Session.Shutdown
import SpnegoProxy.Proof.Tunnel.Clock
import SpnegoProxy.Proof.Tunnel.Halves
import SpnegoProxy.Proof.Tunnel.Idle
import SpnegoProxy.Proof.Session.Answers
import SpnegoProxy.Proof.Session.Failures
import SpnegoProxy.Proof.Session.Framing
import SpnegoProxy.Proof.Session.Validation
import SpnegoProxy.Proof.Session.Upgrade
import SpnegoProxy.Proof.Session.Upload
import SpnegoProxy.Proof.Gokrb5.Retry
import SpnegoProxy.Proof.Gokrb5.Ticket
import SpnegoProxy.Proof.Gokrb5.Warnings
import SpnegoProxy.Proof.Heads
import SpnegoProxy.Proof.Dial
import SpnegoProxy.Proof.NoProxy
import SpnegoProxy.Proof.MaxForwards
import SpnegoProxy.Proof.Response
import SpnegoProxy.Proof.AllowList
import SpnegoProxy.Proof.Rejections
import SpnegoProxy.Proof.TokenStack
import SpnegoProxy.Proof.Gss
import SpnegoProxy.Proof.Session.Network
import SpnegoProxy.Proof.Session.Lifecycle
import SpnegoProxy.Proof.Session.Transparency
import SpnegoProxy.Proof.Session.Responses
import SpnegoProxy.Proof.LocalResponse
import SpnegoProxy.Proof.Server.Drain
import SpnegoProxy.Proof.Server.Backoff
import SpnegoProxy.Proof.Tunnel.Teardown
