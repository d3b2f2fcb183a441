import ApeServer.System.Publication
import ApeServer.System.Recovery
import ApeServer.System.Resend
import ApeServer.System.Cleanup
import ApeServer.Group.History
import ApeServer.Group.Pages
import ApeServer.Group.Authority
import ApeServer.Registration.ExactlyOnce
import ApeServer.System.Entries
import ApeServer.Unread
import ApeServer.Kafka.Offsets
import ApeServer.Gateway.Presence
import ApeServer.Util.Snowflake
import ApeServer.System.Visibility
import ApeServer.Copies
import ApeServer.System.History
import ApeServer.RecordOrder
import ApeServer.Gateway.Sync
import ApeServer.Gateway.Identity
import ApeServer.MarkRead
import ApeServer.System.Crossing
import ApeServer.System.SendResults
import ApeServer.Preview
import ApeServer.Group.RequestIds
import ApeServer.FriendLists
import ApeServer.Group.Deliveries
import ApeServer.Group.Numbers
import ApeServer.Registration.Completion
import ApeServer.Storage.Connectors
import ApeServer.Backbon.Renewal
import ApeServer.Backbon.Removal
import ApeServer.Service.StopRequest
import ApeServer.Util.TraceParent
import ApeServer.TextKeys
import ApeServer.Migration
import ApeServer.Lib.Rooms
import ApeServer.Lib.Mail
import ApeServer.Group.Rooms
import ApeServer.Group.Drain
import ApeServer.Auth.Machine
import ApeServer.Registration.Origin
import ApeServer.Auth.Tokens
import ApeServer.Gateway.Answers
import ApeServer.Gateway.Writes
import ApeServer.System.Mail
import ApeServer.System.Inbox
import ApeServer.ConversationLists
import ApeServer.System.Lists
